import CallImpact.FileTree
import CallImpact.Json.Reader

/-!
# Described files

A directory tree as a JSON object describes it: each member is a path with the text of the file, or
with the hexadecimal digits of its bytes; a path that ends in a slash is an empty directory.
-/

namespace CallImpact.Scenario

/-- The bytes that pairs of hexadecimal digits stand for. -/
def bytesOfHex? : List Char → Option (List UInt8)
  | [] => some []
  | [_] => none
  | a :: b :: rest => do
    let high ← Json.Reader.hexValue? a
    let low ← Json.Reader.hexValue? b
    let bytes ← bytesOfHex? rest
    return UInt8.ofNat (16 * high + low) :: bytes

/-- What a file with the given bytes holds. -/
def contentOfBytes (bytes : List UInt8) : Content :=
  match String.fromUTF8? (ByteArray.mk bytes.toArray) with
  | some s => .text s
  | none => .binary

/-- What a described file holds. -/
def contentOf : Json → Content
  | .str s => .text s
  | j => match bytesOfHex? ((j.field "hex").str?.getD "").toList with
    | some bytes => contentOfBytes bytes
    | none => .binary

/-- Puts described files below a directory. -/
def putFiles (base : Path) (files : Json) (t : FileTree Content) : FileTree Content :=
  (files.obj?.getD []).foldl (fun t (path, value) =>
    if Text.endsWith path "/" then t.makeDir (base ++ pathOf path)
    else t.write (base ++ pathOf path) (contentOf value)) (t.makeDir base)

end CallImpact.Scenario
