import SceneExport.Entries
import SceneExport.Json.Reader
import SceneExport.Rounding

/-!
# Records as JSON

A codec pairs the written form of a type with its reader. Readers go over a tree in the order of the
text, so the first thing wrong in the text is the fault they report. Records are described by a
shape, the list of their fields; one reader and one writer serve all shapes. A record may also be
given as the list of its fields in order.
-/
namespace SceneExport.Json

structure Codec (α : Type) where
  write : α → Json
  read : Tree → Except Fault α

namespace Codec

/-- The same written form for another type. -/
def imap {α β : Type} (c : Codec α) (forth : α → β) (back : β → α) : Codec β where
  write b := c.write (back b)
  read t := (c.read t).map forth

/-- Values that must pass a check, judged once they are read as a whole. -/
def checked {α β : Type} (c : Codec α) (forth : α → Option β) (back : β → α) : Codec β where
  write b := c.write (back b)
  read t := do
    match forth (← c.read t) with
    | some b => .ok b
    | none => .error .mismatch

def bool : Codec Bool where
  write := .bool
  read
    | .bool b => .ok b
    | t => .error t.unexpected

def text : Codec String where
  write := .text
  read
    | .text (some s) => .ok s
    | t => .error t.unexpected

/-- Whole numbers between two bounds. A number written with a fraction or an exponent is none. -/
def whole (lo hi : Int) : Codec Int where
  write n := .number (.whole n)
  read
    | .number (some (.whole n)) => if lo ≤ n ∧ n ≤ hi then .ok n else .error .mismatch
    | t => .error t.unexpected

/-- Signed numbers of 32 bits. -/
def int32 : Codec Int := whole (-0x80000000) 0x7fffffff

/-- Signed numbers of 64 bits. -/
def int64 : Codec Int := whole (-0x8000000000000000) 0x7fffffffffffffff

/-- Sizes and positions. -/
def size : Codec Nat := (whole 0 0xffffffffffffffff).imap Int.toNat Int.ofNat

def word32 : Codec UInt32 :=
  (whole 0 0xffffffff).imap (fun n => UInt32.ofNat n.toNat) (fun w => Int.ofNat w.toNat)

def double : Codec Float where
  write x := .number (.double x)
  read
    | .number (some (.whole n)) => .ok (Float.ofInt n)
    | .number (some (.double x)) => .ok x
    | .number (some (.single x)) => .ok x.toFloat
    | t => .error t.unexpected

/-- Numbers of single width; one beyond their range becomes infinite. -/
def single : Codec Float32 where
  write x := .number (.single x)
  read
    | .number (some (.whole n)) => .ok (Float32.ofInt n)
    | .number (some (.double x)) => .ok (Rounding.narrow x)
    | .number (some (.single x)) => .ok x
    | t => .error t.unexpected

def option {α : Type} (c : Codec α) : Codec (Option α) where
  write
    | some a => c.write a
    | none => .null
  read
    | .null => .ok none
    | t => (c.read t).map some

/-- Reads items one after another. -/
def readAll {α : Type} (read : Tree → Except Fault α) : List Tree → Except Fault (List α)
  | [] => .ok []
  | t :: ts => do
    let a ← read t
    let as ← readAll read ts
    return a :: as

def list {α : Type} (c : Codec α) : Codec (List α) where
  write as := .list (as.map c.write)
  read
    | .list items stop => do
      let as ← readAll c.read items
      Tree.checkStored stop
      return as
    | t => .error t.unexpected

/-- Reads exactly `n` items and hands back the trees behind them. -/
def readSome {α : Type} (read : Tree → Except Fault α) (stop : Option Stop) :
    (n : Nat) → List Tree → Except Fault (Vector α n × List Tree)
  | 0, items => .ok (#v[], items)
  | _ + 1, [] => do
    Tree.checkStored stop
    .error .mismatch
  | n + 1, t :: ts => do
    let a ← read t
    let (as, rest) ← readSome read stop n ts
    return (⟨(#[a] ++ as.toArray), by simp; omega⟩, rest)

/-- Lists of exactly `n` items. A list that goes on behind the last of them is no JSON to this
reader. -/
def vector {α : Type} (n : Nat) (c : Codec α) : Codec (Vector α n) where
  write as := .list (as.toList.map c.write)
  read
    | .list items stop => do
      let (as, rest) ← readSome c.read stop n items
      if !rest.isEmpty then .error .malformed
      Tree.checkStored stop
      return as
    | t => .error t.unexpected

/-- Lists of exactly `n` items, with an item too many reported as a mismatch. -/
def block {α : Type} (n : Nat) (c : Codec α) : Codec (Vector α n) where
  write as := .list (as.toList.map c.write)
  read
    | .list items stop => do
      let (as, rest) ← readSome c.read stop n items
      match rest with
      | [] => do
        Tree.checkStored stop
        return as
      | t :: _ => do
        let _ ← c.read t
        .error .mismatch
    | t => .error t.unexpected

def pair {α : Type} (c : Codec α) : Codec (α × α) :=
  (vector 2 c).imap (fun v => (v[0], v[1])) (fun p => #v[p.1, p.2])

/-- A name out of a fixed list. A name may also stand as the only key of an object, with `null`
behind it. -/
def oneOf {α : Type} [DecidableEq α] (names : List (String × α)) : Codec α where
  write a := .text (((names.find? fun p => p.2 = a).map Prod.fst).getD "")
  read
    | .text (some s) => named s
    | .object ((⟨some s, _⟩, value) :: rest) stop => do
      let a ← named s
      match value with
      | .null => if rest.isEmpty then Tree.checkNamed stop else .error .malformed
      | t => .error t.unexpected
      return a
    | .object [] (some stop) => .error stop.named
    | .broken stop => .error stop.named
    | _ => .error .malformed
where
  named (s : String) : Except Fault α :=
    match names.lookup s with
    | some a => .ok a
    | none => .error .mismatch

/-- Reads the members of a table one after another. -/
def readTable {κ α : Type} [DecidableEq κ] (key? : MemberKey → Option κ)
    (read : Tree → Except Fault α) :
    List (κ × α) → List (MemberKey × Tree) → Except Fault (List (κ × α))
  | done, [] => .ok done
  | done, (s, t) :: rest =>
    match key? s with
    | none => .error .malformed
    | some key => do
      let a ← read t
      readTable key? read (Entries.put key a done) rest

/-- Tables, as objects whose members stand in the order of the table. -/
def table {κ α : Type} [DecidableEq κ] (name : κ → String) (key? : MemberKey → Option κ)
    (c : Codec α) : Codec (List (κ × α)) where
  write entries := .object (entries.map fun (key, a) => (name key, c.write a))
  read
    | .object members stop => do
      let entries ← readTable key? c.read [] members
      Tree.checkStored stop
      return entries
    | t => .error t.unexpected

/-- Values of several kinds: an object with one member, which names the kind and holds the content,
an object again. -/
def tagged {α : Type} (tag : α → String) (content : α → Json)
    (readers : List (String × (Tree → Except Fault α))) : Codec α where
  write a := .object [(tag a, content a)]
  read
    | .object ((⟨some s, _⟩, value) :: rest) stop =>
      match readers.lookup s, value with
      | some read, .object _ _ => do
        let a ← read value
        if !rest.isEmpty then .error .malformed
        Tree.checkNamed stop
        return a
      | some _, t => .error t.unexpected
      | none, _ => .error .mismatch
    | .object [] (some stop) => .error stop.named
    | .broken stop => .error stop.named
    | .text (some _) => .error .mismatch
    | _ => .error .malformed

end Codec

/-- One field of a record. -/
structure Member (α : Type) where
  name : String
  codec : Codec α
  /-- The value when an object has no such member; without one the member is required. -/
  absent : Option α
  /-- The value when a list ends before the field. -/
  beyond : Option α

namespace Member

def required {α : Type} (name : String) (c : Codec α) : Member α := ⟨name, c, none, none⟩

/-- A field that may be `null` and may be left out of an object. -/
def nullable {α : Type} (name : String) (c : Codec α) : Member (Option α) :=
  ⟨name, c.option, some none, none⟩

def defaulted {α : Type} (name : String) (c : Codec α) (value : α) : Member α :=
  ⟨name, c, some value, some value⟩

end Member

/-- The fields of a record, in order; the index is the type of their values as nested pairs. -/
inductive Shape : Type → Type 1 where
  | done : Shape Unit
  | field {α β : Type} (f : Member α) (rest : Shape β) : Shape (α × β)

namespace Shape

/-- Values found so far while the members of an object are read. -/
def Slots : {β : Type} → Shape β → Type
  | _, .done => Unit
  | _, @field α _ _ rest => Option α × rest.Slots

def vacant : {β : Type} → (s : Shape β) → s.Slots
  | _, .done => ()
  | _, .field _ rest => (none, rest.vacant)

/-- Reads a member into its slot. The slot must be vacant; nothing is returned for a key that is no
field. -/
def put (key : String) (t : Tree) :
    {β : Type} → (s : Shape β) → s.Slots → Option (Except Fault s.Slots)
  | _, .done, _ => none
  | _, @field α _ f rest, slots =>
    let found : Option α := slots.1
    if f.name = key then
      some (if found.isSome then .error .mismatch
        else (f.codec.read t).map fun a => (some a, slots.2))
    else (rest.put key t slots.2).map fun r => r.map fun others => (found, others)

/-- The values of all fields once the object has ended. -/
def close : {β : Type} → (s : Shape β) → s.Slots → Except Fault β
  | _, .done, _ => .ok ()
  | _, @field α _ f rest, slots => do
    let found : Option α := slots.1
    let a ← match found.or f.absent with
      | some a => .ok a
      | none => .error .mismatch
    let b ← rest.close slots.2
    return (a, b)

/-- Reads the members of an object; those that are no field are handed to `other`. -/
def readMembers {β σ : Type} (s : Shape β) (other : σ → String → Tree → Except Fault σ) :
    s.Slots → σ → List (MemberKey × Tree) → Except Fault (s.Slots × σ)
  | slots, acc, [] => .ok (slots, acc)
  | _, _, (⟨none, _⟩, _) :: _ => .error .malformed
  | slots, acc, (⟨some key, _⟩, t) :: rest =>
    match s.put key t slots with
    | some r => do
      let slots ← r
      s.readMembers other slots acc rest
    | none => do
      let acc ← other acc key t
      s.readMembers other slots acc rest

/-- Reads fields from the items of a list, and hands back the items behind them. -/
def readItems (stop : Option Stop) :
    {β : Type} → Shape β → List Tree → Except Fault (β × List Tree)
  | _, .done, items => .ok ((), items)
  | _, .field f rest, [] => do
    Tree.checkStored stop
    let a ← match f.beyond with
      | some a => .ok a
      | none => .error .mismatch
    let (b, items) ← rest.readItems stop []
    return ((a, b), items)
  | _, .field f rest, t :: ts => do
    let a ← f.codec.read t
    let (b, items) ← rest.readItems stop ts
    return ((a, b), items)

/-- The members of a written record. -/
def writeMembers : {β : Type} → Shape β → β → List (String × Json)
  | _, .done, _ => []
  | _, .field f rest, (a, b) => (f.name, f.codec.write a) :: rest.writeMembers b

/-- Members that are no field are skipped. -/
def ignore (_ : Unit) (_ : String) (t : Tree) : Except Fault Unit := t.skip

def read {β : Type} (s : Shape β) : Tree → Except Fault β
  | .object members stop => do
    let (slots, _) ← s.readMembers ignore s.vacant () members
    Tree.checkStored stop
    s.close slots
  | .list items stop => do
    let (b, rest) ← s.readItems stop items
    if !rest.isEmpty then .error .malformed
    Tree.checkStored stop
    return b
  | t => .error t.unexpected

/-- The codec of a record, from its shape and the way between the record and its field values. -/
def codec {α β : Type} (s : Shape β) (forth : β → α) (back : α → β) : Codec α where
  write a := .object (s.writeMembers (back a))
  read t := (s.read t).map forth

end Shape

/-- Reads the value that a whole text holds. -/
def Codec.ofText {α : Type} (c : Codec α) (s : String) : Except Fault α := do
  let doc := Document.ofText s
  let a ← c.read doc.tree
  if doc.trailing then .error .malformed else .ok a

/-- Reads a value that is JSON already. Whatever is wrong with it, it is not what was expected. -/
def Codec.ofJson {α : Type} (c : Codec α) (v : Json) : Except Fault α :=
  match c.read (Tree.ofJson v) with
  | .ok a => .ok a
  | .error _ => .error .mismatch

def Codec.toText {α : Type} (c : Codec α) (style : Style) (a : α) : String :=
  (c.write a).render style

end SceneExport.Json
