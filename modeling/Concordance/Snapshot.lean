import Concordance.Snapshot.Checksum
import Concordance.Snapshot.Image

/-! # Snapshots

A database as the bytes of one file: eight bytes that name the format, the checksum and the length
of the payload, and the payload, an image. A file with a wrong length or checksum is refused before
anything is read from it.
-/
namespace Concordance.Snapshot

/-- "INVCOL01". -/
def magic : List UInt8 := [0x49, 0x4E, 0x56, 0x43, 0x4F, 0x4C, 0x30, 0x31]

def headerLength : Nat := 20

/-- The bytes before a payload. -/
def header (payload : List UInt8) : List UInt8 :=
  magic ++ Word.bytes 4 (Checksum.crc32 payload).toNat ++ Word.bytes 8 payload.length

def ofPayload (payload : List UInt8) : List UInt8 := header payload ++ payload

def save (db : Database) : List UInt8 := ofPayload (Image.codec.write (Image.ofDatabase db))

/-- The payload of an undamaged file. -/
def payload (file : List UInt8) : Except Error (List UInt8) :=
  if file.length < headerLength ∨ file.take 8 ≠ magic then
    .error (.snapshot "not a snapshot file")
  else
    let checksum := Word.ofBytes ((file.drop 8).take 4)
    let length := Word.ofBytes ((file.drop 12).take 8)
    let payload := file.drop headerLength
    if payload.length ≠ length then
      .error (.snapshot s!"truncated payload: expected {length} bytes, found {payload.length}")
    else if (Checksum.crc32 payload).toNat ≠ checksum then .error (.snapshot "checksum mismatch")
    else .ok payload

/-- The image at the front of a payload. -/
def image (payload : List UInt8) : Except Error Image :=
  match Image.codec.read payload with
  | .ok (image, _) => .ok image
  | .error fault => .error (.serialization fault.message)

/-- The database that a file holds. -/
def load (file : List UInt8) : Except Error Database := do
  (← image (← payload file)).restore

/-- What comes of loading a file that does not exist. -/
def missing : Error := .io "No such file or directory (os error 2)"

end Concordance.Snapshot
