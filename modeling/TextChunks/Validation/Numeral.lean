import TextChunks.Text.Digits
import TextChunks.Validation.Problem

namespace TextChunks.Numeral

def maxDigits : Nat := 4300

/-- A number in its plain form; digits beyond the limit are complained about, whatever follows them. A
sign is no digit. -/
def plain (s : Text) : Except Complaint Int :=
  let (negative, unsigned) := s.sign
  match unsigned.whole? with
  | none => .error .unreadableInteger
  | some (ds, rest) =>
    if maxDigits < ds.length then .error .tooManyDigits
    else if rest.isEmpty then .ok (Text.signedValue negative ds)
    else .error .unreadableInteger

/-- Skips zeros and underscores, of which `last` came last; it stays if a point follows or nothing. -/
def skipZeros (last : Char) : Text → Text
  | [] => [last]
  | c :: rest =>
    if c == '0' || c == '_' then skipZeros c rest
    else if c == '.' then last :: c :: rest
    else c :: rest

def dropZeros : Text → Text
  | '0' :: rest => skipZeros '0' rest
  | s => s

def dropPoint (s : Text) : Text :=
  match s.dropWhile (· != '.') with
  | _ :: c :: rest => if (c :: rest).all (· == '0') then s.takeWhile (· != '.') else s
  | _ => s

def dropUnderscores (s : Text) : Text :=
  let parts := Text.separate ['_'] s
  if parts.any List.isEmpty then s else parts.flatten

def tidyUnsigned (s : Text) : Text := dropUnderscores (dropPoint (dropZeros s))

/-- The plain form of what the text says, if it has one. Two signs never go together. -/
def tidy (s : Text) : Text :=
  match s.trim Text.isWhite with
  | '+' :: '-' :: _ => []
  | '+' :: rest => tidyUnsigned rest
  | '-' :: rest => '-' :: tidyUnsigned rest
  | rest => tidyUnsigned rest

/-- The whole number in a string. Only a string that is plain as it stands can have too many digits. -/
def read (s : Text) : Except Complaint Int :=
  match plain s with
  | .error .unreadableInteger =>
    match plain (tidy s) with
    | .ok n => .ok n
    | .error _ => .error .unreadableInteger
  | result => result

end TextChunks.Numeral
