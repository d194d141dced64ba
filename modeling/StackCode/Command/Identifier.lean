import StackCode.Text.Quoted

/-!
# Program identifiers

A program is known in reports and log lines by a random identifier of 128 bits, written as five
groups of hexadecimal digits. Six of the bits say that the identifier is random.
-/

namespace StackCode

/-- The identifier with the given bytes, of which the first sixteen count. -/
def identifierText (bytes : List Nat) : String :=
  let marked := bytes.zipIdx.map fun (b, i) =>
    if i = 6 then 0x40 + b % 0x10 else if i = 8 then 0x80 + b % 0x40 else b % 0x100
  let group (start count : Nat) : String :=
    String.ofList (((marked.drop start).take count).flatMap (hexDigits 2))
  String.intercalate "-" [group 0 4, group 4 2, group 6 2, group 8 2, group 10 6]

end StackCode
