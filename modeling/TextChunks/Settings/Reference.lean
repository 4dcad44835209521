import TextChunks.Dictionary
import TextChunks.Text.Basic

namespace TextChunks

structure Reference where
  name : Text
  default : Text := []

namespace Reference

/-- A reference at the start of the text, and what follows it. A name ends before `}` and `:`, a default
before `}`. -/
def read? : Text → Option (Reference × Text)
  | '$' :: '{' :: rest =>
    let name := rest.takeWhile fun c => c != '}' && c != ':'
    match rest.drop name.length with
    | '}' :: after => some (⟨name, []⟩, after)
    | ':' :: '-' :: rest =>
      let default := rest.takeWhile (· != '}')
      match rest.drop default.length with
      | _ :: after => some (⟨name, default⟩, after)
      | [] => none
    | _ => none
  | _ => none

def expandFrom (value : Reference → Text) : Nat → Text → Text
  | _, [] => []
  | skipped + 1, _ :: rest => expandFrom value skipped rest
  | 0, c :: rest =>
    match read? (c :: rest) with
    | some (r, after) => value r ++ expandFrom value (rest.length - after.length) rest
    | none => c :: expandFrom value 0 rest

def expand (value : Reference → Text) (s : Text) : Text := expandFrom value 0 s

/-- What a reference stands for: a variable without a value counts as empty, and the default takes the
place of one that is not there. -/
def value (vars : Dictionary Text (Option Text)) (r : Reference) : Text :=
  match vars.get? r.name with
  | some v => v.getD []
  | none => r.default

/-- The variables with the references in their values replaced. A reference sees the bindings in front of
its own, and behind them the variables of the environment. -/
def resolve (environment : Dictionary Text Text) (bindings : List (Text × Option Text)) :
    Dictionary Text (Option Text) :=
  let outer : Dictionary Text (Option Text) := environment.map fun kv => (kv.1, some kv.2)
  bindings.foldl (fun d kv => d.put kv.1 (kv.2.map (expand (value (outer.putAll d)))))
    ([] : Dictionary Text (Option Text))

end Reference

end TextChunks
