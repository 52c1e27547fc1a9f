import WhileSyntax.Parser.Basic
import WhileSyntax.Tree.Equality

/-!
# Values of any kind

Parsers that are put together while a program runs yield values of one common type. A parser that
succeeds with such a value shows it in its name.
-/

namespace WhileSyntax

/-- A value that a parser yields. -/
inductive Value where
  | nothing
  | flag (value : Bool)
  | whole (value : Int)
  | text (value : String)
  | list (items : List Value)
  | tree (value : Tree)
  deriving Inhabited

namespace Value

/-- A number, counting truth values as zero and one. -/
def number? : Value → Option Int
  | flag value => some (if value then 1 else 0)
  | whole value => some value
  | _ => none

mutual

/-- Whether two values have one content. -/
def same : Value → Value → Bool
  | nothing, nothing => true
  | text a, text b => a == b
  | list as, list bs => sameItems as bs
  | tree a, tree b => a.same b
  | a, b =>
    match a.number?, b.number? with
    | some m, some n => m == n
    | _, _ => false

/-- Whether two lists of values have one content. -/
def sameItems : List Value → List Value → Bool
  | [], [] => true
  | a :: as, b :: bs => same a b && sameItems as bs
  | _, _ => false

end

mutual

/-- A value as names and messages show it. -/
def shown : Value → Except Text.Decimal.NumeralError String
  | nothing => .ok "None"
  | flag value => .ok (if value then "True" else "False")
  | whole value => (Text.Decimal.write value).map String.ofList
  | text value => .ok (Text.Quoted.quote value)
  | list items => do
    let parts ← shownItems items
    .ok ("[" ++ ", ".intercalate parts ++ "]")
  | tree value => .ok value.kind

/-- Values one by one as names and messages show them. -/
def shownItems : List Value → Except Text.Decimal.NumeralError (List String)
  | [] => .ok []
  | v :: vs => do
    let part ← shown v
    let parts ← shownItems vs
    .ok (part :: parts)

end

end Value

/-- Succeed with a value that is shown in the name, refused if it cannot be shown. -/
def Parser.pure? (value : Value) : Except Fault (Parser Value) :=
  match value.shown with
  | .ok shown => .ok (Parser.pure shown value)
  | .error error => .error (.numeral error)

end WhileSyntax
