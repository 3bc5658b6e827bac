import SheetTemplate.Archive.Inflate
import SheetTemplate.Package.Basic
/-!
Packages as ZIP archives: each part is a member, compressed or not. The directory at the end of an
archive says where its members are.
-/
namespace SheetTemplate.Archive

/-- A member by its name in the directory. -/
structure Member where
  name : ByteArray
  method : Nat
  checksum : Nat
  size : Nat
  offset : Nat

def slice? (b : ByteArray) (offset length : Nat) : Option ByteArray :=
  if offset + length ≤ b.size then some (b.extract offset (offset + length)) else none

/-- Where the end of the directory stands: the last place with its mark, from some offset down. -/
def directoryEnd? (b : ByteArray) : Nat → Option Nat
  | 0 => if number? b 0 4 = some 0x06054B50 then some 0 else none
  | n + 1 => if number? b (n + 1) 4 = some 0x06054B50 then some (n + 1) else directoryEnd? b n

def members? (b : ByteArray) (offset : Nat) : Nat → Option (List Member)
  | 0 => some []
  | n + 1 => do
    let mark ← number? b offset 4
    if mark ≠ 0x02014B50 then none
    else
      let method ← number? b (offset + 10) 2
      let checksum ← number? b (offset + 16) 4
      let size ← number? b (offset + 20) 4
      let nameLength ← number? b (offset + 28) 2
      let extraLength ← number? b (offset + 30) 2
      let commentLength ← number? b (offset + 32) 2
      let start ← number? b (offset + 42) 4
      let name ← slice? b (offset + 46) nameLength
      let rest ← members? b (offset + 46 + nameLength + extraLength + commentLength) n
      return ⟨name, method, checksum, size, start⟩ :: rest

/-- The bytes of a member, which have to match its checksum. -/
def content? (b : ByteArray) (m : Member) : Option ByteArray := do
  let mark ← number? b m.offset 4
  if mark ≠ 0x04034B50 then none
  else
    let nameLength ← number? b (m.offset + 26) 2
    let extraLength ← number? b (m.offset + 28) 2
    let raw ← slice? b (m.offset + 30 + nameLength + extraLength) m.size
    let bytes ← if m.method = 0 then some raw else if m.method = 8 then inflate? raw else none
    if (checksum bytes).toNat = m.checksum then some bytes else none

def part? (b : ByteArray) (m : Member) : Option (String × Part) :=
  (content? b m).map fun bytes => ((Part.ofBytes m.name).text, Part.ofBytes bytes)

def read? (b : ByteArray) : Option Package := do
  let offset ← directoryEnd? b b.size
  let count ← number? b (offset + 10) 2
  let start ← number? b (offset + 16) 4
  let members ← members? b start count
  return ⟨← members.mapM (part? b)⟩

/-- What the record of a member in front of its bytes and its record in the directory share. -/
def header (name bytes : ByteArray) : List UInt8 :=
  let size := bytes.size
  littleEndian 20 2 ++ littleEndian 0x0800 2 ++ littleEndian 0 2 ++ littleEndian 0 2
    ++ littleEndian 0x0021 2 ++ littleEndian (checksum bytes).toNat 4 ++ littleEndian size 4
    ++ littleEndian size 4 ++ littleEndian name.size 2 ++ littleEndian 0 2

def records (offset : Nat) : List (String × Part) → ByteArray × ByteArray
  | [] => (ByteArray.empty, ByteArray.empty)
  | (name, part) :: rest =>
    let name := name.toUTF8
    let bytes := part.text.toUTF8
    let header := header name bytes
    let member := (littleEndian 0x04034B50 4 ++ header).toByteArray ++ name ++ bytes
    let entry := (littleEndian 0x02014B50 4 ++ littleEndian 20 2 ++ header ++ littleEndian 0 2
      ++ littleEndian 0 2 ++ littleEndian 0 2 ++ littleEndian 0 4
      ++ littleEndian offset 4).toByteArray ++ name
    let (members, directory) := records (offset + member.size) rest
    (member ++ members, entry ++ directory)

/-- The archive of a package, without compression. -/
def write (p : Package) : ByteArray :=
  let (members, directory) := records 0 p.parts
  let count := p.parts.length
  members ++ directory ++ (littleEndian 0x06054B50 4 ++ littleEndian 0 2 ++ littleEndian 0 2
    ++ littleEndian count 2 ++ littleEndian count 2 ++ littleEndian directory.size 4
    ++ littleEndian members.size 4 ++ littleEndian 0 2).toByteArray

end SheetTemplate.Archive
