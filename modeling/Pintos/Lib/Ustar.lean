import Pintos.Lib.Memory
import Pintos.Lib.Stdio
import Pintos.Lib.String

/-! # ustar archive headers (`lib/ustar.c`)

A header is the 512 bytes of `struct ustar_header`, a buffer read at offsets `0 … 511`; a field
is its offset and size in the packed structure.  A file name is the bytes of a C string before
its null byte.  The octal fields are written by `snprintf`, whose model is `Lib/Stdio`.
-/

namespace Pintos
set_option autoImplicit false
set_option maxHeartbeats 250000
set_option maxRecDepth 120000

/-- `USTAR_HEADER_SIZE` -/
def USTAR_HEADER_SIZE : Nat := 512

/-- `enum ustar_type` -/
inductive ustar_type
  | USTAR_REGULAR
  | USTAR_DIRECTORY
  | USTAR_EOF
deriving DecidableEq, Repr

/-- The byte `h->typeflag = type` stores: `'0'`, `'5'`, and `-1` as a `char`. -/
def ustar_type.byte : ustar_type → UInt8
  | .USTAR_REGULAR => '0'.toUInt8
  | .USTAR_DIRECTORY => '5'.toUInt8
  | .USTAR_EOF => 255

/-- Offset and size of a field of `struct ustar_header`. -/
structure header_field where
  ofs : Nat
  size : Nat

def name_field : header_field := ⟨0, 100⟩
def mode_field : header_field := ⟨100, 8⟩
def uid_field : header_field := ⟨108, 8⟩
def gid_field : header_field := ⟨116, 8⟩
def size_field : header_field := ⟨124, 12⟩
def mtime_field : header_field := ⟨136, 12⟩
def chksum_field : header_field := ⟨148, 8⟩
def typeflag_field : header_field := ⟨156, 1⟩
def magic_field : header_field := ⟨257, 6⟩
def version_field : header_field := ⟨263, 2⟩
def uname_field : header_field := ⟨265, 32⟩
def gname_field : header_field := ⟨297, 32⟩
def prefix_field : header_field := ⟨345, 155⟩

/-- The bytes of a field, from its first on. -/
def field_bytes (h : Buffer) (f : header_field) : Buffer := fun i => h (f.ofs + i)

/-- A C string literal, its bytes then a null byte. -/
def literal (s : String) : Buffer := fun i => (s.toList.map Char.toUInt8).getD i 0

/-- `calculate_chksum (h)`: the sum of the header's bytes, the checksum field counted as spaces,
in an `unsigned int`. -/
def calculate_chksum (h : Buffer) : Nat :=
  (List.range USTAR_HEADER_SIZE).foldl (fun chksum i =>
    let in_chksum_field := chksum_field.ofs ≤ i ∧ i < chksum_field.ofs + chksum_field.size
    (chksum + if in_chksum_field then ' '.toUInt8.toNat else (h i).toNat) % 2 ^ 32) 0

/-- The loop of `strip_antisocial_prefixes`: while the name starts with `/`, `./` or `../`, go past
its first `/`, which each of the three contains. -/
def strip_loop (file_name : List UInt8) : List UInt8 :=
  if _h : file_name.head? = some '/'.toUInt8 ∨
      memcmp (fun i => byte_at file_name i) (literal "./") 2 = 0 ∨
      memcmp (fun i => byte_at file_name i) (literal "../") 3 = 0 then
    match hs : strchr file_name '/'.toUInt8 with
    | some p => strip_loop (file_name.drop (p + 1))
    | none => []
  else file_name
termination_by file_name.length
decreasing_by
  have hne : file_name ≠ [] := by
    rintro rfl
    revert _h
    decide +kernel
  simp only [List.length_drop]
  have := List.length_pos_iff.mpr hne
  omega

def strip_antisocial_prefixes (file_name : List UInt8) : List UInt8 :=
  let file_name := strip_loop file_name
  if file_name = [] ∨ file_name = ['.'.toUInt8, '.'.toUInt8] then ['.'.toUInt8] else file_name

/-- The bytes `snprintf (dst, size, format, value)` writes for one integer. -/
def snprintf_field (size : Nat) (format : String) (value : Int) : List UInt8 :=
  (snprintf size (format.toList.map Char.toUInt8) [.int value]).1

/-- The header `ustar_make_header` fills in before its checksum, for a name it accepts. -/
def fill_header (file_name : List UInt8) (type : ustar_type) (size : Int) (header : Buffer) : Buffer :=
  let h := memset header 0 0 USTAR_HEADER_SIZE
  let h := strlcpy h name_field.ofs file_name name_field.size
  let h := store_bytes h mode_field.ofs
    (snprintf_field mode_field.size "%07o" (if type = .USTAR_REGULAR then 0o644 else 0o755))
  let h := strlcpy h uid_field.ofs ("0000000".toList.map Char.toUInt8) uid_field.size
  let h := strlcpy h gid_field.ofs ("0000000".toList.map Char.toUInt8) gid_field.size
  let h := store_bytes h size_field.ofs (snprintf_field size_field.size "%011o" size)
  -- `sizeof h->size` as in the source; both fields are 12 bytes
  let h := store_bytes h mtime_field.ofs (snprintf_field size_field.size "%011o" 1136102400)
  let h := Function.update h typeflag_field.ofs type.byte
  let h := strlcpy h magic_field.ofs ("ustar".toList.map Char.toUInt8) magic_field.size
  let h := Function.update (Function.update h version_field.ofs '0'.toUInt8) (version_field.ofs + 1) '0'.toUInt8
  let h := strlcpy h gname_field.ofs ("root".toList.map Char.toUInt8) gname_field.size
  strlcpy h uname_field.ofs ("root".toList.map Char.toUInt8) uname_field.size

/-- `ustar_make_header (file_name, type, size, header)`: `none` when its `ASSERT` on the type
fails, else the value it returns and the header. -/
def ustar_make_header (file_name : List UInt8) (type : ustar_type) (size : Int) (header : Buffer) :
    Option (Bool × Buffer) :=
  if type = .USTAR_EOF then none
  else
    let file_name := strip_antisocial_prefixes file_name
    if file_name.length > 99 then some (false, header)
    else
      let h := fill_header file_name type size header
      some (true, store_bytes h chksum_field.ofs (snprintf_field chksum_field.size "%07o" (calculate_chksum h)))

/-- `ULONG_MAX` of the i386 ABI. -/
def ULONG_MAX : Nat := 2 ^ 32 - 1

/-- The loop of `parse_octal_field (s, size, &value)` from offset `ofs`: the value, or `none` when
it returns false. -/
def parse_octal_loop (s : Buffer) (size value ofs : Nat) : Option Nat :=
  if ofs < size then
    let c := s ofs
    if '0'.toUInt8 ≤ c ∧ c ≤ '7'.toUInt8 then
      if value > ULONG_MAX / 8 then none
      else parse_octal_loop s size (c.toNat - '0'.toUInt8.toNat + value * 8) (ofs + 1)
    else if c = ' '.toUInt8 ∨ c = 0 then
      if ofs > 0 then some value else none
    else none
  else none
termination_by size - ofs

def parse_octal_field (s : Buffer) (size : Nat) : Option Nat := parse_octal_loop s size 0 0

def is_all_zeros (block : Buffer) (cnt : Nat) : Bool := (List.range cnt).all fun i => block i = 0

/-- `ustar_parse_header (header, &file_name, &type, &size)`: the name (`none` for `NULL`), type and
size it stores, or the error message it returns. -/
def ustar_parse_header (h : Buffer) : Except String (Option (List UInt8) × ustar_type × Int) :=
  if is_all_zeros h USTAR_HEADER_SIZE then .ok (none, .USTAR_EOF, 0)
  else if memcmp (field_bytes h magic_field) (literal "ustar") 6 ≠ 0 then .error "not a ustar archive"
  else if h version_field.ofs ≠ '0'.toUInt8 ∨ h (version_field.ofs + 1) ≠ '0'.toUInt8 then
    .error "invalid ustar version"
  else
    match parse_octal_field (field_bytes h chksum_field) chksum_field.size with
    | none => .error "corrupt chksum field"
    | some chksum =>
      if chksum ≠ calculate_chksum h then .error "checksum mismatch"
      else if h (name_field.ofs + name_field.size - 1) ≠ 0 ∨ h prefix_field.ofs ≠ 0 then
        .error "file name too long"
      else if h typeflag_field.ofs ≠ ustar_type.USTAR_REGULAR.byte ∧
          h typeflag_field.ofs ≠ ustar_type.USTAR_DIRECTORY.byte then
        .error "unimplemented file type"
      else
        let type := if h typeflag_field.ofs = ustar_type.USTAR_REGULAR.byte then ustar_type.USTAR_REGULAR
          else ustar_type.USTAR_DIRECTORY
        let size_ul : Except String Nat :=
          if type = .USTAR_REGULAR then
            match parse_octal_field (field_bytes h size_field) size_field.size with
            | none => .error "corrupt file size field"
            -- `INT_MAX`
            | some size_ul => if size_ul > 2 ^ 31 - 1 then .error "file too large" else .ok size_ul
          else .ok 0
        match size_ul with
        | .error e => .error e
        | .ok size_ul =>
          .ok (some (strip_antisocial_prefixes (cstr (field_bytes h name_field) name_field.size)), type, size_ul)

end Pintos
