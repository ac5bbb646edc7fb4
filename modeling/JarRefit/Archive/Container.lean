import JarRefit.Archive.Entry
import JarRefit.Text.Utf8

/-!
# Archive containers

Archives as bytes, in the ZIP format. Entries are written as they are, without compression, and only
such entries are read. Each entry stands in the container with a header in front; the directory at
the end has a record for each, which tells where it stands.
-/
namespace JarRefit.Archive.Container

/-- A number in so many bytes, the lowest one first. -/
def number (width value : Nat) : List UInt8 :=
  (List.range width).map fun i => (value / Nat.pow 0x100 i).toUInt8

/-- Fields in a row, each given by its width and its value. -/
def fields (values : List (Nat × Nat)) : List UInt8 :=
  values.flatMap fun (width, value) => number width value

/-- The check sum with one more bit moved out. -/
def shiftChecksum (sum : UInt32) : UInt32 :=
  if sum % 2 = 1 then (sum >>> 1) ^^^ 0xEDB88320 else sum >>> 1

/-- The cyclic check sum of bytes. -/
def checksum (data : List UInt8) : UInt32 :=
  (data.foldl (fun sum byte => (List.range 8).foldl (fun sum _ => shiftChecksum sum)
    (sum ^^^ byte.toUInt32)) 0xFFFFFFFF) ^^^ 0xFFFFFFFF

/-- A time of day in 16 bits, by two seconds. -/
def packTime (t : Timestamp) : Nat :=
  t.hour * 0x800 + t.minute * 0x20 + t.second / 2

/-- A date in 16 bits, from the year 1980 on. -/
def packDate (t : Timestamp) : Nat :=
  (t.year - 1980) * 0x200 + t.month * 0x20 + t.day

def unpackTimestamp (date time : Nat) : Timestamp :=
  { year := date / 0x200 + 1980, month := date / 0x20 % 0x10, day := date % 0x20,
    hour := time / 0x800, minute := time / 0x20 % 0x40, second := time % 0x20 * 2 }

/-! ### Writing -/

def entryMark : Nat := 0x04034B50
def recordMark : Nat := 0x02014B50
def endMark : Nat := 0x06054B50

/-- What an entry's header and its record have in common: version 2.0, a name in UTF-8, no
compression, the time, the check sum, the size twice, and the size of the name. -/
def description (e : Entry) : List UInt8 :=
  fields [(2, 20), (2, 0x800), (2, 0), (2, packTime e.time), (2, packDate e.time),
    (4, (checksum e.data).toNat), (4, e.data.length), (4, e.data.length),
    (2, (Utf8.encode e.name).length), (2, 0)]

/-- An entry with its header. -/
def entryBytes (e : Entry) : List UInt8 :=
  number 4 entryMark ++ (description e ++ (Utf8.encode e.name ++ e.data))

/-- The record of an entry that stands at an offset. -/
def recordBytes (e : Entry) (offset : Nat) : List UInt8 :=
  fields [(4, recordMark), (2, 20)] ++
    (description e ++ (fields [(2, 0), (2, 0), (2, 0), (4, 0), (4, offset)] ++ Utf8.encode e.name))

/-- The records of entries that stand one after another from an offset on. -/
def directoryBytes (offset : Nat) : List Entry → List UInt8
  | [] => []
  | e :: rest => recordBytes e offset ++ directoryBytes (offset + (entryBytes e).length) rest

/-- The container of entries. -/
def encode (entries : List Entry) : List UInt8 :=
  let body := entries.flatMap entryBytes
  let directory := directoryBytes 0 entries
  body ++ (directory ++ fields [(4, endMark), (2, 0), (2, 0), (2, entries.length),
    (2, entries.length), (4, directory.length), (4, body.length), (2, 0)])

/-! ### Reading -/

/-- The number in so many bytes from a place on; what lies beyond the end counts as zero. -/
def numberAt (data : ByteArray) (width place : Nat) : Nat :=
  (List.range width).foldr (fun i rest => (data[place + i]?.getD 0).toNat + 0x100 * rest) 0

/-- So many bytes from a place on, if there are that many. -/
def slice? (data : ByteArray) (place size : Nat) : Option (List UInt8) :=
  if place + size ≤ data.size then some (data.extract place (place + size)).toList else none

/-- The entry of the record at a place, and the place of the next record. -/
def entryAt? (data : ByteArray) (place : Nat) : Option (Entry × Nat) := do
  let nameSize := numberAt data 2 (place + 28)
  let name ← Utf8.decode? (← slice? data (place + 46) nameSize)
  let header := numberAt data 4 (place + 42)
  let start := header + 30 + numberAt data 2 (header + 26) + numberAt data 2 (header + 28)
  let bytes ← slice? data start (numberAt data 4 (place + 24))
  let isStored := numberAt data 4 place = recordMark ∧ numberAt data 2 (place + 10) = 0
  if isStored ∧ (checksum bytes).toNat = numberAt data 4 (place + 16) then
    let time := unpackTimestamp (numberAt data 2 (place + 14)) (numberAt data 2 (place + 12))
    let isDirectory := Entry.endsAsDirectory name
    let next := place + 46 + nameSize + numberAt data 2 (place + 30) + numberAt data 2 (place + 32)
    some ({ name, isDirectory, time, data := bytes }, next)
  else none

/-- The entries of so many records from a place on. -/
def entriesAt? (data : ByteArray) : Nat → Nat → Option (List Entry)
  | 0, _ => some []
  | count + 1, place => do
    let (e, next) ← entryAt? data place
    return e :: (← entriesAt? data count next)

/-- The place of the end of the directory: the last one with its mark. -/
def endPlace? (data : ByteArray) : Option Nat :=
  ((List.range (min (data.size - 21) 0x10000)).map (data.size - 22 - ·)).find? fun place =>
    numberAt data 4 place = endMark

/-- The entries of a container. -/
def decode? (data : ByteArray) : Option (List Entry) := do
  let place ← endPlace? data
  entriesAt? data (numberAt data 2 (place + 10)) (numberAt data 4 (place + 16))

end JarRefit.Archive.Container
