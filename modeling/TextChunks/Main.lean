import TextChunks.Service.Handlers

namespace TextChunks

def readVariables : IO (Dictionary Text Text) := do
  let mut vars := []
  for name in Settings.Sources.names do
    for spelling in [name, name.toUpper] do
      if let some value ← IO.getEnv spelling then
        vars := vars ++ [(spelling.toList, value.toList)]
  return vars

def readSources : IO Settings.Sources := do
  let file ← try pure (some (← IO.FS.readFile ".env").toList) catch _ => pure none
  return ⟨← readVariables, file⟩

def printLog (before after : Service) : IO Unit :=
  (after.lines.drop before.lines.length).forM fun line => IO.eprintln (String.ofList line)

def randomId : IO Text := do
  let bytes ← IO.getRandomBytes 12
  return "doc_".toList ++ Hex.ofBytes bytes.toList

/-- Answers every line until the input ends. No request draws more than one identifier. -/
partial def serve (s : Service) (input output : IO.FS.Stream) : IO Service := do
  let line ← input.getLine
  if line.isEmpty then return s
  let id ← randomId
  let s := { s with ids := fun _ => id }
  let (reply, s') := (Service.answer (Request.ofLine (Text.strip line.toList))).run s
  printLog s s'
  output.putStrLn (String.ofList reply.line)
  output.flush
  serve s' input output

def runService : IO UInt32 := do
  let s : Service := { settings := { sources := ← readSources }, profiles := Profiles.new }
  match s.start with
  | .error e =>
    IO.eprintln (String.ofList e.message)
    return 1
  | .ok started =>
    printLog s started
    let last ← serve started (← IO.getStdin) (← IO.getStdout)
    printLog last last.stop
    return 0

end TextChunks

def main : IO UInt32 := TextChunks.runService
