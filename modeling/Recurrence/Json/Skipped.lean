import Recurrence.Json.Number
import Recurrence.Json.Text

/-!
# JSON: skipped values

A value of any form that is passed over. It has to be JSON, but less is asked of it than of a value that is used: an
escape may be a lone surrogate, and a number may exceed the doubles. The brackets that are open are kept in a list, so
values may be nested to any depth.
-/

namespace Recurrence.Json

variable {ε : Type}

/-! ### Strings and other values without parts -/

/-- An escape that is passed over, after the backslash. -/
def skipEscape (cs : List Char) : Except (Fault ε) (Taken Unit cs) :=
  match cs with
  | [] => .error .unfinished
  | c :: rest =>
    if c = 'u' then (readHex rest).map fun t => (t.map fun _ => ()).behind c
    else if (escaped? c).isSome then .ok (.head () c rest)
    else .error .malformed

/-- The characters of a string that are passed over, and its closing quote. -/
def skipChars (cs : List Char) : Except (Fault ε) (Taken Unit cs) :=
  match cs with
  | [] => .error .unfinished
  | c :: rest =>
    if c = '"' then .ok (.head () c rest)
    else if c = '\\' then do
      let escape ← skipEscape rest
      (skipChars escape.rest).map fun t => (escape.andThen t).behind c
    else if c < ' ' then .error .malformed
    else (skipChars rest).map (·.behind c)
  termination_by cs.length
  decreasing_by
  · exact Nat.lt_succ_of_lt escape.shorter
  · exact Nat.lt_succ_self _

/-- A value without parts that begins with `c`. A number that is cut short is malformed. -/
def skipScalar (c : Char) (rest : List Char) : Except (Fault ε) (Taken Unit (c :: rest)) :=
  if c = '"' then (skipChars rest).map (·.behind c)
  else if c = '-' ∨ c.isDigit then (readNumeral .malformed (c :: rest)).map fun t => t.map fun _ => ()
  else (nameAfter? c).elim (.error .malformed) fun letters => (afterLetters letters rest).map (.headAnd () c)

/-! ### Nested values -/

/-- The two kinds of brackets. -/
inductive Bracket where
  | list
  | object
  deriving DecidableEq, Repr

/-- The bracket that a character opens. -/
def Bracket.opened? : Char → Option Bracket
  | '[' => some list
  | '{' => some object
  | _ => none

/-- The character that closes a bracket. -/
def Bracket.closing : Bracket → Char
  | list => ']'
  | object => '}'

/-- Where reading is inside nested brackets. -/
inductive Place where
  /-- After an opening bracket. -/
  | opened
  /-- Where a value begins. -/
  | value
  /-- Where the name of a member begins. -/
  | name
  /-- After a value inside a bracket. -/
  | after
  deriving DecidableEq, Repr

/-- Where the first or next part inside a bracket begins. -/
def Bracket.part : Bracket → Place
  | list => .value
  | object => .name

/-- The place after an opening bracket comes before the other places at the same character. -/
def Place.rank : Place → Nat
  | opened => 1
  | _ => 0

/-- What is passed over from a place inside open brackets to the end of the outermost one; of a value that is in no
bracket, to its own end. -/
def skipFrom (place : Place) (brackets : List Bracket) (cs : List Char) : Except (Fault ε) (Taken Unit cs) :=
  atFirst cs fun c rest h =>
    match place, brackets with
    | .value, brackets =>
      match Bracket.opened? c with
      | some bracket => (skipFrom .opened (bracket :: brackets) rest).map (·.within h)
      | none => do
        let t ← skipScalar c rest
        have ht : t.rest.length < cs.length := Nat.lt_of_lt_of_le t.shorter h
        if brackets = [] then .ok ⟨(), t.rest, ht⟩
        else (skipFrom .after brackets t.rest).map (·.within ht)
    | .name, brackets =>
      if c = '"' then do
        let name ← skipChars rest
        atFirst name.rest fun d after h' =>
          have ha : after.length < cs.length := Nat.lt_trans (Nat.lt_trans h' name.shorter) h
          if d = ':' then (skipFrom .value brackets after).map (·.within ha) else .error .malformed
      else .error .malformed
    | .opened, bracket :: outer =>
      if c = bracket.closing then
        if outer = [] then .ok ⟨(), rest, h⟩ else (skipFrom .after outer rest).map (·.within h)
      else skipFrom bracket.part (bracket :: outer) cs
    | .after, bracket :: outer =>
      if c = bracket.closing then
        if outer = [] then .ok ⟨(), rest, h⟩ else (skipFrom .after outer rest).map (·.within h)
      else if c = ',' then (skipFrom bracket.part (bracket :: outer) rest).map (·.within h)
      else .error .malformed
    | .opened, [] => .error .malformed
    | .after, [] => .error .malformed
  termination_by (cs.length, place.rank)
  decreasing_by
  · exact Prod.Lex.left _ _ h
  · exact Prod.Lex.left _ _ ht
  · exact Prod.Lex.left _ _ ha
  · exact Prod.Lex.left _ _ h
  · cases bracket <;> exact Prod.Lex.right _ (by decide)
  · exact Prod.Lex.left _ _ h
  · exact Prod.Lex.left _ _ h

/-- A value of any form that is passed over. -/
def skipValue (cs : List Char) : Except (Fault ε) (Taken Unit cs) :=
  skipFrom .value [] cs

end Recurrence.Json
