import TextChunks.Text.CodePoint

namespace TextChunks

inductive ByteOrder where
  | big
  | little
  deriving DecidableEq

namespace Bytes

def unitOf (order : ByteOrder) (unit : Bytes) : Nat :=
  let unit := match order with
    | .big => unit
    | .little => unit.reverse
  unit.foldl (fun n b => n * 0x100 + b.toNat) 0

def units16? (order : ByteOrder) : Bytes → Option (List Nat)
  | [] => some []
  | a :: b :: rest => (units16? order rest).map (unitOf order [a, b] :: ·)
  | _ => none

def units32? (order : ByteOrder) : Bytes → Option (List Nat)
  | [] => some []
  | a :: b :: c :: d :: rest => (units32? order rest).map (unitOf order [a, b, c, d] :: ·)
  | _ => none

def ofUtf16? (order : ByteOrder) (bs : Bytes) : Option (List CodePoint) :=
  (units16? order bs).map fun us => CodePoint.joinPairs (us.map .ofNat)

def ofUtf32? (order : ByteOrder) (bs : Bytes) : Option (List CodePoint) := do
  let us ← units32? order bs
  if us.all (· < 0x110000) then some (us.map .ofNat) else none

end Bytes

end TextChunks
