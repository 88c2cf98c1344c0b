import AnnotatedYaml.Text.Wrap

/-! Why a command line does not read, and the message that says so. -/

namespace AnnotatedYaml.Cli

open Text

/-- Why a command line does not read. -/
inductive Refusal
  /-- An item that nothing takes. -/
  | unexpected (item : String)
  /-- An option given again where it is taken once. -/
  | repeated (item : String)
  /-- Something else, or nothing, stands where `what` should. -/
  | expected (what : String) (found : Option String)
  /-- An option's value does not read; `shown` is the value as the message shows it. -/
  | unreadable (shown reason : String)
  /-- An option lacks its value; `next` is the option written after it, if one is there. -/
  | needsValue (option metavar : String) (next : Option String)
  /-- An item close to the name `meant`; `kind` says what the item looks like. -/
  | noSuch (kind item meant : String)
  /-- A long option written with one dash. -/
  | oneDash (name : String)
  /-- A short option written with two dashes. -/
  | twoDashes (c : Char)
  /-- An option of the command `command`, given outside it. -/
  | elsewhere (kind item command : String)
  deriving Repr, Inhabited

def quoted (s : String) : List Piece := [.mark "`", .text s, .mark "`"]

def Refusal.message : Refusal → List Piece
  | .unexpected x => quoted x ++ [.text " is not expected in this context"]
  | .repeated x =>
    [.text "argument "] ++ quoted x ++ [.text " cannot be used multiple times in this context"]
  | .expected what found =>
    [.text "expected "] ++ quoted what ++
      (match found with
        | some x => [.text ", got "] ++ quoted x ++ [.text ". Pass "]
        | none => [.text ", pass "]) ++
      quoted "--help" ++ [.text " for usage information"]
  | .unreadable v reason => [.text "couldn't parse "] ++ quoted v ++ [.text (": " ++ reason)]
  | .needsValue o mv next =>
    quoted o ++ [.text " requires an argument "] ++ quoted mv ++
      (match next with
        | some n =>
          [.text ", got a flag "] ++ quoted n ++ [.text ", try "] ++ quoted (o ++ "=" ++ n) ++
            [.text " to use it as an argument"]
        | none => [])
  | .noSuch kind x meant =>
    [.text ("no such " ++ kind ++ ": ")] ++ quoted x ++ [.text ", did you mean "] ++ quoted meant ++
      [.text "?"]
  | .oneDash name =>
    [.text "no such flag: "] ++ quoted ("-" ++ name) ++ [.text " (with one dash), did you mean "] ++
      quoted ("--" ++ name) ++ [.text "?"]
  | .twoDashes c =>
    [.text "no such flag: "] ++ quoted ("--" ++ c.toString) ++
      [.text " (with two dashes), did you mean "] ++ quoted ("-" ++ c.toString) ++ [.text "?"]
  | .elsewhere kind x cmd =>
    [.text (kind ++ " ")] ++ quoted x ++
      [.text " is not valid in this context, did you mean to pass it to command "] ++ quoted cmd ++
      [.text "?"]

def messageWidth : Nat := 100

def Refusal.text (r : Refusal) : String := fill messageWidth r.message

end AnnotatedYaml.Cli
