import SceneExport.Decimal.Shortest

/-!
# Decimal texts of floating-point numbers

A layout says how the digits of a number are set out: which sizes are written in plain notation,
whether a whole number keeps a zero behind the point, and which way a tie goes. The digits are
always the fewest that read back.
-/
namespace SceneExport.Decimal

structure Layout where
  /-- The least and the greatest exponent of the leading digit that plain notation is used for;
  without bounds it is always used. -/
  plain : Option (Int × Int)
  /-- Whole numbers in plain notation end in `.0`. -/
  pointZero : Bool
  tie : Tie

/-- Numbers of double width in documents. -/
def Layout.double : Layout := ⟨some (-5, 15), true, .even⟩

/-- Numbers of single width in documents. -/
def Layout.single : Layout := ⟨some (-6, 12), true, .even⟩

/-- Numbers in messages: never an exponent, and no point behind a whole number. -/
def Layout.message : Layout := ⟨none, false, .away⟩

def Layout.usesPlain (l : Layout) (e : Int) : Bool :=
  match l.plain with
  | none => true
  | some (least, most) => least ≤ e && e ≤ most

def zeros (n : Int) : List Char :=
  List.replicate n.toNat '0'

/-- Plain notation of digits whose first stands for `10 ^ e`. -/
def plainText (pointZero : Bool) (digits : List Char) (e : Int) : List Char :=
  if e < 0 then '0' :: '.' :: zeros (-e - 1) ++ digits
  else
    let whole := (e + 1).toNat
    if digits.length ≤ whole then
      digits ++ zeros (whole - digits.length) ++ (if pointZero then ['.', '0'] else [])
    else digits.take whole ++ '.' :: digits.drop whole

/-- Scientific notation of digits whose first stands for `10 ^ e`; the exponent carries its sign. -/
def scientificText (digits : List Char) (e : Int) : List Char :=
  digits.take 1 ++ (if digits.length ≤ 1 then [] else '.' :: digits.drop 1) ++
    'e' :: (if e < 0 then '-' else '+') :: Nat.toDigits 10 e.natAbs

/-- The text of a positive decimal. -/
def text (l : Layout) (d : Decimal) : List Char :=
  let digits := Nat.toDigits 10 d.coefficient
  let e := d.exponent + digits.length - 1
  if l.usesPlain e then plainText l.pointZero digits e else scientificText digits e

/-- The text of a number with its sign. -/
def Parts.text (l : Layout) (p : Parts) : String :=
  let body : List Char :=
    match p.magnitude with
    | .undefined => ['N', 'a', 'N']
    | .unbounded => ['i', 'n', 'f']
    | .zero => if l.pointZero then ['0', '.', '0'] else ['0']
    | .positive b => Decimal.text l (shortest l.tie b)
  let signed := p.negative && p.magnitude != .undefined
  String.ofList (if signed then '-' :: body else body)

/-- A number of double width in the words of a message. -/
def messageText (x : Float) : String :=
  (Parts.ofFloat x).text .message

end SceneExport.Decimal
