import Mathlib.Algebra.Group.Int.Defs
import Mathlib.Algebra.Group.Nat.Defs

/-! # `printf` formatting (`lib/stdio.c`)

`__vprintf` walks a format string and hands each character it produces to `output`; here it
returns the list of those characters.  A format is the bytes of a C string up to its null byte.
A `va_list` is the list of the arguments still to be read: an integer argument is its value as
the caller passed it, and `va_arg (args, T)` reads the next one and converts it to `T` as the
i386 ABI does (`char` 8 bits, `short` 16, `int`, `long`, `ptrdiff_t` and `size_t` 32, `long long`
and `intmax_t` 64).  A string argument is its bytes, or `NULL`.

`parse_conversion` reads the flags, the field width, the precision and the type of a conversion,
and `format_integer` renders an integer into the 64-byte buffer `buf`, least significant digit
first, then outputs it backwards between its padding, sign and `0x`.  `vsnprintf` keeps the first
`buf_size - 1` characters and a null byte.
-/

namespace Pintos
set_option autoImplicit false
set_option linter.style.nameCheck false
set_option maxHeartbeats 250000
set_option maxRecDepth 120000

/-! ## Conversions -/

/-- The flags of `struct printf_conversion`, a field for each bit of `flags`. -/
structure printf_flags where
  MINUS : Bool
  PLUS : Bool
  SPACE : Bool
  POUND : Bool
  ZERO : Bool
  GROUP : Bool
deriving DecidableEq, Repr

/-- No flag set: `c->flags = 0`. -/
def printf_flags.none : printf_flags := ⟨false, false, false, false, false, false⟩

/-- The argument types of `struct printf_conversion`. -/
inductive printf_type
  | CHAR
  | SHORT
  | INT
  | INTMAX
  | LONG
  | LONGLONG
  | PTRDIFFT
  | SIZET
deriving DecidableEq, Repr

/-- `struct printf_conversion` -/
structure printf_conversion where
  flags : printf_flags
  width : Int
  precision : Int
  type : printf_type
deriving DecidableEq, Repr

/-- `struct integer_base`, with the facts its four instances have: a base of at least two, a
distinct digit for each value below it, `0` first and no comma among them, and a group size of
at least one. -/
structure integer_base where
  base : Nat
  digits : List UInt8
  x : UInt8
  group : Nat
  base_ge : 2 ≤ base
  digits_length : digits.length = base
  digits_nodup : digits.Nodup
  zero_first : digits.head? = some '0'.toUInt8
  comma_not_mem : ','.toUInt8 ∉ digits
  group_pos : 0 < group

def base_d : integer_base :=
  ⟨10, "0123456789".toList.map Char.toUInt8, 0, 3, by decide, by decide, by decide, by decide,
    by decide, by decide⟩

def base_o : integer_base :=
  ⟨8, "01234567".toList.map Char.toUInt8, 0, 3, by decide, by decide, by decide, by decide,
    by decide, by decide⟩

def base_x : integer_base :=
  ⟨16, "0123456789abcdef".toList.map Char.toUInt8, 'x'.toUInt8, 4, by decide, by decide, by decide,
    by decide, by decide, by decide⟩

def base_X : integer_base :=
  ⟨16, "0123456789ABCDEF".toList.map Char.toUInt8, 'X'.toUInt8, 4, by decide, by decide, by decide,
    by decide, by decide, by decide⟩

/-! ## Arguments -/

/-- An argument of a `printf`. -/
inductive printf_arg
  | int (v : Int)
  | str (s : Option (List UInt8))
deriving DecidableEq, Repr

/-- The integer an argument passes; a string passed where an integer is read is undefined in C,
and reads as 0 here. -/
def printf_arg.value : printf_arg → Int
  | .int v => v
  | .str _ => 0

/-- The string an argument passes; an integer passed where a string is read reads as `NULL`. -/
def printf_arg.string : printf_arg → Option (List UInt8)
  | .int _ => none
  | .str s => s

/-- `va_arg (args, T)` for a signed integer type of `w` bits: the next argument, wrapped. -/
def va_arg_signed (w : Nat) : List printf_arg → Int × List printf_arg
  | [] => (0, [])
  | a :: args => (a.value.bmod (2 ^ w), args)

/-- `va_arg (args, T)` for an unsigned integer type of `w` bits. -/
def va_arg_unsigned (w : Nat) : List printf_arg → Nat × List printf_arg
  | [] => (0, [])
  | a :: args => ((a.value % 2 ^ w).toNat, args)

/-- `va_arg (args, char *)` -/
def va_arg_string : List printf_arg → Option (List UInt8) × List printf_arg
  | [] => (none, [])
  | a :: args => (a.string, args)

/-! ## `parse_conversion` -/

/-- The flag characters at the front of a conversion. -/
def parse_flags (flags : printf_flags) : List UInt8 → printf_flags × List UInt8
  | [] => (flags, [])
  | ch :: format =>
    if ch = '-'.toUInt8 then parse_flags { flags with MINUS := true } format
    else if ch = '+'.toUInt8 then parse_flags { flags with PLUS := true } format
    else if ch = ' '.toUInt8 then parse_flags { flags with SPACE := true } format
    else if ch = '#'.toUInt8 then parse_flags { flags with POUND := true } format
    else if ch = '0'.toUInt8 then parse_flags { flags with ZERO := true } format
    -- the apostrophe
    else if ch = 39 then parse_flags { flags with GROUP := true } format
    else (flags, ch :: format)

def isdigit (ch : UInt8) : Bool := '0'.toUInt8 ≤ ch && ch ≤ '9'.toUInt8

/-- `for (; isdigit (*format); format++) n = n * 10 + *format - '0';` -/
def parse_digits (n : Int) : List UInt8 → Int × List UInt8
  | [] => (n, [])
  | ch :: format =>
    if isdigit ch then parse_digits (n * 10 + (ch.toNat - '0'.toUInt8.toNat)) format else (n, ch :: format)

/-- A field width, or a precision after its `.`: `*` reads it from the arguments, otherwise it is
the number the digits that follow spell, 0 for none. -/
def parse_field (format : List UInt8) (args : List printf_arg) : Int × List UInt8 × List printf_arg :=
  match format with
  | ch :: rest =>
    if ch = '*'.toUInt8 then
      ((va_arg_signed 32 args).1, rest, (va_arg_signed 32 args).2)
    else ((parse_digits 0 (ch :: rest)).1, (parse_digits 0 (ch :: rest)).2, args)
  | [] => (0, [], args)

/-- The precision after a `.`, or `-1` for none; a negative `*` precision counts as none. -/
def parse_precision (format : List UInt8) (args : List printf_arg) : Int × List UInt8 × List printf_arg :=
  match format with
  | ch :: rest =>
    if ch = '.'.toUInt8 then
      let (precision, rest, args) := parse_field rest args
      (if precision < 0 then -1 else precision, rest, args)
    else (-1, ch :: rest, args)
  | [] => (-1, [], args)

/-- The argument type. -/
def parse_type : List UInt8 → printf_type × List UInt8
  | ch :: format =>
    if ch = 'h'.toUInt8 then
      match format with
      | ch' :: format' => if ch' = 'h'.toUInt8 then (.CHAR, format') else (.SHORT, ch' :: format')
      | [] => (.SHORT, [])
    else if ch = 'j'.toUInt8 then (.INTMAX, format)
    else if ch = 'l'.toUInt8 then
      match format with
      | ch' :: format' => if ch' = 'l'.toUInt8 then (.LONGLONG, format') else (.LONG, ch' :: format')
      | [] => (.LONG, [])
    else if ch = 't'.toUInt8 then (.PTRDIFFT, format)
    else if ch = 'z'.toUInt8 then (.SIZET, format)
    else (.INT, ch :: format)
  | [] => (.INT, [])

/-- `parse_conversion (format, c, args)`: the conversion, the format from its conversion
character on, and the arguments left. -/
def parse_conversion (format : List UInt8) (args : List printf_arg) :
    printf_conversion × List UInt8 × List printf_arg :=
  let (flags, format) := parse_flags printf_flags.none format
  let flags := if flags.MINUS then { flags with ZERO := false } else flags
  let flags := if flags.PLUS then { flags with SPACE := false } else flags
  let (width, format, args) := parse_field format args
  -- `c->width = -c->width` on an `int`
  let (width, flags) := if width < 0 then ((-width).bmod (2 ^ 32), { flags with MINUS := true })
    else (width, flags)
  let (precision, format, args) := parse_precision format args
  let flags := if precision ≥ 0 then { flags with ZERO := false } else flags
  let (type, format) := parse_type format
  (⟨flags, width, precision, type⟩, format, args)

/-! ## `format_integer` -/

/-- The digit loop of `format_integer`: the digits of `value`, least significant first, after
`buf`, with a comma before a digit whenever `digit_cnt` digits, a nonzero multiple of the group
size, are already out and `group` is set. -/
def digits_loop (b : integer_base) (group : Bool) (value digit_cnt : Nat) (buf : List UInt8) :
    List UInt8 :=
  if value > 0 then
    let buf := if group && digit_cnt > 0 && digit_cnt % b.group == 0 then buf ++ [','.toUInt8] else buf
    let buf := buf ++ [b.digits.getD (value % b.base) 0]
    digits_loop b group (value / b.base) (digit_cnt + 1) buf
  else buf
termination_by value
decreasing_by exact Nat.div_lt_self ‹_› (by have := b.base_ge; omega)

/-- `while (cp - buf < precision && cp < buf + sizeof buf - 1) *cp++ = '0';`, with `fuel` above
the number of bytes the buffer can still take. -/
def zero_fill (precision : Int) : Nat → List UInt8 → List UInt8
  | 0, buf => buf
  | fuel + 1, buf =>
    if (buf.length : Int) < precision ∧ buf.length < 63 then zero_fill precision fuel (buf ++ ['0'.toUInt8])
    else buf

def output_dup (ch : UInt8) (cnt : Nat) : List UInt8 := List.replicate cnt ch

/-- The sign character of `format_integer`, or 0 for none: an unsigned conversion never has one. -/
def integer_sign (is_signed negative : Bool) (flags : printf_flags) : UInt8 :=
  if is_signed then
    if flags.PLUS then (if negative then '-'.toUInt8 else '+'.toUInt8)
    else if flags.SPACE then (if negative then '-'.toUInt8 else ' '.toUInt8)
    else if negative then '-'.toUInt8 else 0
  else 0

/-- The bytes `format_integer` accumulates in `buf`, from `buf` to `cp`: the digits of `value`
least significant first with the group commas, the zeros that make up the precision and the
leading zero of a `#` octal conversion. -/
def integer_buffer (value : Nat) (b : integer_base) (c : printf_conversion) : List UInt8 :=
  let buf := digits_loop b c.flags.GROUP value 0 []
  let precision : Int := if c.precision < 0 then 1 else c.precision
  let buf := zero_fill precision 64 buf
  if c.flags.POUND && b.base == 8 && (buf.isEmpty || buf.getLastD 0 != '0'.toUInt8) then
    buf ++ ['0'.toUInt8]
  else buf

/-- `format_integer (value, is_signed, negative, b, c, …)`: the characters it outputs. -/
def format_integer (value : Nat) (is_signed negative : Bool) (b : integer_base) (c : printf_conversion) :
    List UInt8 :=
  let sign := integer_sign is_signed negative c.flags
  let x : UInt8 := if c.flags.POUND && value != 0 then b.x else 0
  let buf := integer_buffer value b c
  let pad_cnt : Int := c.width - buf.length - (if x != 0 then 2 else 0) - (if sign != 0 then 1 else 0)
  let pad_cnt := if pad_cnt < 0 then 0 else pad_cnt
  (if !c.flags.MINUS && !c.flags.ZERO then output_dup ' '.toUInt8 pad_cnt.toNat else []) ++
    (if sign != 0 then [sign] else []) ++
    (if x != 0 then ['0'.toUInt8, x] else []) ++
    (if c.flags.ZERO then output_dup '0'.toUInt8 pad_cnt.toNat else []) ++
    buf.reverse ++
    (if c.flags.MINUS then output_dup ' '.toUInt8 pad_cnt.toNat else [])

def format_string (string : List UInt8) (length : Nat) (c : printf_conversion) : List UInt8 :=
  (if c.width > length && !c.flags.MINUS then output_dup ' '.toUInt8 (c.width - length).toNat else []) ++
    string.take length ++
    (if c.width > length && c.flags.MINUS then output_dup ' '.toUInt8 (c.width - length).toNat else [])

/-- `strnlen (string, maxlen)` on a string given by its bytes before the null byte. -/
def strnlen (string : List UInt8) (maxlen : Nat) : Nat := min string.length maxlen

/-- `SIZE_MAX` of the i386 ABI, the bound `strnlen` gets for precision `-1`. -/
def SIZE_MAX : Nat := 2 ^ 32 - 1

/-! ## `__vprintf` -/

/-- The value of a signed conversion (`%d`, `%i`) of type `type`. -/
def signed_value (type : printf_type) (args : List printf_arg) : Int × List printf_arg :=
  match type with
  | .CHAR => ((va_arg_signed 32 args).1.bmod (2 ^ 8), (va_arg_signed 32 args).2)
  | .SHORT => ((va_arg_signed 32 args).1.bmod (2 ^ 16), (va_arg_signed 32 args).2)
  | .INT => va_arg_signed 32 args
  | .INTMAX => va_arg_signed 64 args
  | .LONG => va_arg_signed 32 args
  | .LONGLONG => va_arg_signed 64 args
  | .PTRDIFFT => va_arg_signed 32 args
  | .SIZET =>
    -- `if (value > SIZE_MAX / 2) value = value - SIZE_MAX - 1;`
    let value : Int := (va_arg_unsigned 32 args).1
    (if value > SIZE_MAX / 2 then value - SIZE_MAX - 1 else value, (va_arg_unsigned 32 args).2)

/-- The value of an unsigned conversion (`%o`, `%u`, `%x`, `%X`) of type `type`. -/
def unsigned_value (type : printf_type) (args : List printf_arg) : Nat × List printf_arg :=
  match type with
  | .CHAR => ((va_arg_unsigned 32 args).1 % 2 ^ 8, (va_arg_unsigned 32 args).2)
  | .SHORT => ((va_arg_unsigned 32 args).1 % 2 ^ 16, (va_arg_unsigned 32 args).2)
  | .INT => va_arg_unsigned 32 args
  | .INTMAX => va_arg_unsigned 64 args
  | .LONG => va_arg_unsigned 32 args
  | .LONGLONG => va_arg_unsigned 64 args
  | .PTRDIFFT =>
    -- a `ptrdiff_t` converted to `uintmax_t`, then `value &= ((uintmax_t) PTRDIFF_MAX << 1) | 1`
    (((va_arg_signed 32 args).1 % 2 ^ 64).toNat &&& ((2 ^ 31 - 1) <<< 1 ||| 1), (va_arg_signed 32 args).2)
  | .SIZET => va_arg_unsigned 32 args

/-- The base of an unsigned conversion character. -/
def unsigned_base (conv : UInt8) : integer_base :=
  if conv = 'o'.toUInt8 then base_o
  else if conv = 'u'.toUInt8 then base_d
  else if conv = 'x'.toUInt8 then base_x
  else base_X

/-- What one conversion outputs, with the conversion character `conv`. -/
def conversion_output (c : printf_conversion) (conv : UInt8) (args : List printf_arg) :
    List UInt8 × List printf_arg :=
  if conv = 'd'.toUInt8 ∨ conv = 'i'.toUInt8 then
    let (value, args) := signed_value c.type args
    -- `value < 0 ? -value : value` in `intmax_t`, passed as `uintmax_t`: `-INTMAX_MIN` wraps
    (format_integer ((if value < 0 then -value else value) % 2 ^ 64).toNat true (value < 0) base_d c, args)
  else if conv = 'o'.toUInt8 ∨ conv = 'u'.toUInt8 ∨ conv = 'x'.toUInt8 ∨ conv = 'X'.toUInt8 then
    let (value, args) := unsigned_value c.type args
    (format_integer value false false (unsigned_base conv) c, args)
  else if conv = 'c'.toUInt8 then
    let (ch, args) := va_arg_signed 32 args
    (format_string [(ch % 2 ^ 8).toNat.toUInt8] 1 c, args)
  else if conv = 's'.toUInt8 then
    let (s, args) := va_arg_string args
    let s := s.getD ("(null)".toList.map Char.toUInt8)
    (format_string s (strnlen s (if c.precision < 0 then SIZE_MAX else c.precision.toNat)) c, args)
  else if conv = 'p'.toUInt8 then
    let (p, args) := va_arg_unsigned 32 args
    (format_integer p false false base_x { c with flags := { printf_flags.none with POUND := true } }, args)
  else if conv = 'f'.toUInt8 ∨ conv = 'e'.toUInt8 ∨ conv = 'E'.toUInt8 ∨ conv = 'g'.toUInt8 ∨
      conv = 'G'.toUInt8 ∨ conv = 'n'.toUInt8 then
    -- `__printf ("<<no %%%c in kernel>>", output, aux, *format)`
    ("<<no %".toList.map Char.toUInt8 ++ [conv] ++ " in kernel>>".toList.map Char.toUInt8, args)
  else
    -- `__printf ("<<no %%%c conversion>>", output, aux, *format)`
    ("<<no %".toList.map Char.toUInt8 ++ [conv] ++ " conversion>>".toList.map Char.toUInt8, args)

/-- One iteration of the loop of `__vprintf` on a format that starts with `ch`: what it outputs,
the format after it and the arguments left; `none` at the null byte that ends the loop. -/
def vprintf_step (ch : UInt8) (format : List UInt8) (args : List printf_arg) :
    Option (List UInt8 × List UInt8 × List printf_arg) :=
  if ch = 0 then none
  else if ch ≠ '%'.toUInt8 then some ([ch], format, args)
  else
    match format with
    | ch' :: format' =>
      if ch' = '%'.toUInt8 then some (['%'.toUInt8], format', args)
      else
        let (c, format, args) := parse_conversion (ch' :: format') args
        let (out, args) := conversion_output c (format.headD 0) args
        some (out, format.tail, args)
    | [] =>
      let (c, format, args) := parse_conversion [] args
      let (out, args) := conversion_output c (format.headD 0) args
      some (out, format.tail, args)

/-- The loop of `__vprintf (format, args, output, aux)`: the characters it outputs.  `fuel`
bounds the iterations; each takes at least one character of the format. -/
def vprintf_loop : Nat → List UInt8 → List printf_arg → List UInt8
  | 0, _, _ => []
  | _ + 1, [], _ => []
  | fuel + 1, ch :: format, args =>
    match vprintf_step ch format args with
    | none => []
    | some (out, format, args) => out ++ vprintf_loop fuel format args

def __vprintf (format : List UInt8) (args : List printf_arg) : List UInt8 :=
  vprintf_loop (format.length + 1) format args

/-- `vsnprintf (buffer, buf_size, format, args)`: the bytes written to `buffer` and the value
returned. -/
def vsnprintf (buf_size : Nat) (format : List UInt8) (args : List printf_arg) : List UInt8 × Nat :=
  let out := __vprintf format args
  (if buf_size > 0 then out.take (buf_size - 1) ++ [0] else [], out.length)

def snprintf (buf_size : Nat) (format : List UInt8) (args : List printf_arg) : List UInt8 × Nat :=
  vsnprintf buf_size format args

end Pintos
