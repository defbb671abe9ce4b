import Ramify.LR.Listing
import Ramify.Table.Artifact
import Ramify.Text.Utf8

namespace Ramify.CommandLine

structure Request where
  grammar : String
  directory : String
  name : String
  options : LR.Options
  level : Level

structure Draft where
  grammar : Option String := none
  directory : Option String := none
  name : Option String := none
  preferShift : List String := []
  strict : Bool := false
  debug : Bool := false

def Draft.read (d : Draft) : List String → Option Draft
  | [] => some d
  | "-g" :: v :: rest | "--grammar" :: v :: rest =>
    if d.grammar.isSome then none else { d with grammar := some v }.read rest
  | "-o" :: v :: rest | "--output-dir" :: v :: rest =>
    if d.directory.isSome then none else { d with directory := some v }.read rest
  | "-n" :: v :: rest | "--name" :: v :: rest =>
    if d.name.isSome then none else { d with name := some v }.read rest
  | "-s" :: v :: rest | "--prefer-shift" :: v :: rest =>
    { d with preferShift := d.preferShift ++ [v] }.read rest
  | "--strict" :: rest => if d.strict then none else { d with strict := true }.read rest
  | "-d" :: rest | "--debug" :: rest =>
    if d.debug then none else { d with debug := true }.read rest
  | _ => none

def Draft.request? (d : Draft) : Option Request := do
  return {
    grammar := ← d.grammar
    directory := ← d.directory
    name := ← d.name
    options := ⟨d.preferShift, if d.strict then .reject else .report⟩
    level := if d.debug then .debug else .info }

def Request.ofArguments? (arguments : List String) : Option Request := do
  (← ({} : Draft).read arguments).request?

def failureText (action cause : String) : String :=
  s!"Error: {action}\n\nCaused by:\n    {cause}"

def usage : String :=
  "usage: ramify -g GRAMMAR -o DIRECTORY -n NAME [-s TERMINAL]... [--strict] [--debug]"

def Request.run (r : Request) : IO UInt32 := do
  match Text.Utf8.decode? (← IO.FS.readBinFile r.grammar).toList with
  | none =>
    IO.eprintln (failureText s!"reading {r.grammar}" "stream did not contain valid UTF-8")
    return 1
  | some text =>
    for record in Record.upTo r.level (LR.constructRecords text r.options) do
      IO.eprintln record.text
    match LR.construct text r.options with
    | .error e =>
      IO.eprintln (failureText s!"generating tables for {r.grammar}" e.message)
      return 1
    | .ok K =>
      IO.FS.createDirAll r.directory
      IO.FS.writeFile s!"{r.directory}/{r.name}.json" K.table.toJson
      IO.FS.writeFile s!"{r.directory}/{r.name}.report" K.listing
      return 0

end Ramify.CommandLine

def main (arguments : List String) : IO UInt32 := do
  match Ramify.CommandLine.Request.ofArguments? arguments with
  | some request => request.run
  | none =>
    IO.eprintln Ramify.CommandLine.usage
    return 2
