namespace TextChunks

abbrev Dictionary (κ α : Type) := List (κ × α)

namespace Dictionary

variable {κ α : Type} [DecidableEq κ]

def get? (d : Dictionary κ α) (k : κ) : Option α :=
  (d.find? (·.1 = k)).map (·.2)

/-- A key that is there keeps its place and takes the new value; a new key comes last. -/
def put : Dictionary κ α → κ → α → Dictionary κ α
  | [], k, v => [(k, v)]
  | (k', v') :: d, k, v => if k' = k then (k, v) :: d else (k', v') :: put d k v

def putAll (d e : Dictionary κ α) : Dictionary κ α :=
  e.foldl (fun d kv => d.put kv.1 kv.2) d

end Dictionary

end TextChunks
