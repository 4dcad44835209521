import TextChunks.Text.Basic

namespace TextChunks

/-- The authority holds the name of a user, a host and a port; the path ends before a query or a fragment. -/
structure Address where
  scheme : Text
  authority : Text
  path : Text
  deriving DecidableEq

namespace Address

def isSchemeChar (c : Char) : Bool := c.isAlphanum || c == '+' || c == '-' || c == '.'

def splitScheme (s : Text) : Text × Text :=
  let scheme := s.takeWhile isSchemeChar
  match s.dropWhile isSchemeChar with
  | ':' :: rest => if scheme.head?.all Char.isAlpha then (scheme, rest) else ([], s)
  | _ => ([], s)

def splitAuthority : Text → Text × Text
  | '/' :: '/' :: rest => (rest.takeWhile (· != '/'), rest.dropWhile (· != '/'))
  | s => ([], s)

def ofText (s : Text) : Address :=
  let (scheme, rest) := splitScheme (s.takeWhile fun c => c != '?' && c != '#')
  let (authority, path) := splitAuthority rest
  ⟨scheme, authority, path⟩

def userAndRest (a : Address) : Text × Text :=
  match a.authority.dropWhile (· != '@') with
  | _ :: rest => (a.authority.takeWhile (· != '@'), rest)
  | [] => ([], a.authority)

def user (a : Address) : Text := a.userAndRest.1

def hostAndPort (a : Address) : Text := a.userAndRest.2

def host (a : Address) : Text :=
  let s := a.hostAndPort
  let bracketed := (s.reverse.dropWhile (· != ']')).reverse
  if s.head? = some '[' ∧ bracketed ≠ [] then bracketed
  else s.takeWhile fun c => c != ':' && c != '@'

def port (a : Address) : Text :=
  match a.hostAndPort.drop a.host.length with
  | ':' :: rest => rest
  | rest => rest

def isBare (a : Address) : Bool :=
  a.scheme.isEmpty && a.user.isEmpty && a.host.isEmpty && a.port.isEmpty

def isAbsolute (a : Address) : Bool := !a.scheme.isEmpty && !a.host.isEmpty

end Address

end TextChunks
