import SceneExport.Text.Basic

/-!
# Page templates

A template is text with placeholders `$name` and `${name}`. A doubled dollar sign stands for one
dollar sign. Values are put in as they are and never scanned again.
-/
namespace SceneExport.Template

inductive Error where
  | unterminated (line : Nat)
  | invalid (line : Nat)
  | unbound (name : String)
  deriving DecidableEq, Repr

def Error.message : Error → String
  | .unterminated line => s!"unterminated placeholder on line {line}"
  | .invalid line => s!"invalid placeholder on line {line}"
  | .unbound name => "no value for '$" ++ name ++ "'"

def startsName (c : Char) : Bool :=
  c = '_' || Text.isAsciiLetter c

def continuesName (c : Char) : Bool :=
  startsName c || Text.isDigit c

def isName (cs : List Char) : Bool :=
  (cs.head?.map startsName).getD false && cs.all continuesName

/-- The name in a placeholder whose dollar sign has been read, and how many characters it takes up.
Without a closing brace there is none. -/
def placeholder? (cs : List Char) : Option (List Char × Nat) :=
  match cs with
  | '{' :: rest =>
    let name := rest.takeWhile (· ≠ '}')
    if name.length < rest.length then some (name, name.length + 2) else none
  | _ =>
    let name := cs.takeWhile continuesName
    some (name, name.length)

/-- Fills in the rest of a template behind `out`. `line` is the number of the current line, and
`skip` counts the characters of a placeholder that are still to be passed over. -/
def fillFrom (values : List (String × String)) (out : String) (line : Nat) :
    Nat → List Char → Except Error String
  | _, [] => .ok out
  | skip + 1, c :: rest => fillFrom values out (if c = '\n' then line + 1 else line) skip rest
  | 0, '$' :: '$' :: rest => fillFrom values (out.push '$') line 0 rest
  | 0, '$' :: rest =>
    match placeholder? rest with
    | none => .error (.unterminated line)
    | some (name, width) =>
      if isName name then
        let key := String.ofList name
        match values.lookup key with
        | some value => fillFrom values (out ++ value) line width rest
        | none => .error (.unbound key)
      else .error (.invalid line)
  | 0, c :: rest => fillFrom values (out.push c) (if c = '\n' then line + 1 else line) 0 rest

/-- Every placeholder replaced by its value, or what is wrong with the first one that has none. -/
def fill (template : String) (values : List (String × String)) : Except Error String :=
  fillFrom values "" 1 0 template.toList

end SceneExport.Template
