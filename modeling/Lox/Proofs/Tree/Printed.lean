import Lox.Proofs.Number.Printing
import Lox.Tree.Print

/-! Printed trees, apart from what they are printed of: words, and lists between parentheses that start with a word of
their own. No two of them have the same text, and a text that goes on after a printed tree goes on in one way only. -/
namespace Lox

namespace Printed

/-! Words end where a byte comes that is in none of them. -/

def opening : UInt8 := '('.toUInt8

def closing : UInt8 := ')'.toUInt8

def comma : UInt8 := ','.toUInt8

/-- The bytes that are part of a word without quotes. -/
def isPlain (b : UInt8) : Bool := b ∉ [Chunk.space, opening, closing, comma, Chunk.quote, Text.newline]

/-- A word without quotes. -/
structure Plain (t : Text) : Prop where
  nonempty : t ≠ []
  inside : ∀ b ∈ t, isPlain b = true

/-- Whatever ends such a word. -/
def Bounded (t : Text) : Prop := ∀ b, t.head? = some b → isPlain b = false

private theorem bounded_cons (ends : isPlain b = false) : Bounded (b :: t) := by
  rintro _ ⟨⟩
  exact ends

private theorem Plain.append_inj (left : Plain t) (right : Plain t') (ends : Bounded r) (ends' : Bounded r')
    (same : t ++ r = t' ++ r') : t = t' ∧ r = r' := by
  have first : Chunk.run isPlain (t ++ r) = (t, r) := Chunk.run_append left.inside ends
  have second : Chunk.run isPlain (t' ++ r') = (t', r') := Chunk.run_append right.inside ends'
  rw [same, second] at first
  exact ⟨(Prod.mk.inj first).1.symm, (Prod.mk.inj first).2.symm⟩

/-- A word without quotes does not start with what ends one. -/
theorem Plain.ne_cons (plain : Plain t) (ends : isPlain b = false) : t ++ r ≠ b :: u := by
  intro same
  cases t with
  | nil => exact plain.nonempty rfl
  | cons first rest =>
    obtain ⟨rfl, -⟩ := List.cons.inj same
    have inside := plain.inside first List.mem_cons_self
    rw [ends] at inside
    cases inside

private theorem isPlain_of_isWordByte (word : Text.isWordByte b = true) : isPlain b = true := by
  have bytes : ∀ n : Fin 256, Text.isWordByte (UInt8.ofFin n) = true → isPlain (UInt8.ofFin n) = true := by
    decide +kernel
  exact bytes b.toFin word

private theorem isPlain_of_isNumeral (numeral : Number.isNumeral b = true) : isPlain b = true := by
  have bytes : ∀ n : Fin 256, Number.isNumeral (UInt8.ofFin n) = true → isPlain (UInt8.ofFin n) = true := by
    decide +kernel
  exact bytes b.toFin numeral

private theorem plain_of_isIdentifier (name : Text.isIdentifier t = true) : Plain t := by
  cases t with
  | nil => cases name
  | cons first rest =>
    simp only [Text.isIdentifier, Bool.and_eq_true, List.all_eq_true] at name
    obtain ⟨⟨letter, word⟩, -⟩ := name
    have start : Text.isWordByte first = true := by
      rw [Text.isWordByte, letter]
      rfl
    refine ⟨List.cons_ne_nil _ _, List.forall_mem_cons.2 ⟨isPlain_of_isWordByte start, ?_⟩⟩
    exact fun b member => isPlain_of_isWordByte (word b member)

private theorem plain_of_numeral (numeral : Number.Numeral t) : Plain t := by
  obtain ⟨b, first, -⟩ := numeral.starts
  constructor
  · rintro rfl
    cases first
  · exact fun b member => isPlain_of_isNumeral (numeral.inside b member)

section

variable {α : Type} {text : α → Text} {sep : UInt8} (gap : Text) (ends : isPlain sep = false)
include ends

private theorem bounded_separated (xs : List α) (r : Text) :
    Bounded (xs.flatMap (sep :: gap ++ text ·) ++ closing :: r) := by
  cases xs with
  | nil => exact bounded_cons rfl
  | cons => exact bounded_cons ends

/-- Things with a separator in front of each, up to a parenthesis: if the things can be told from what comes after
them, so can all of them together. -/
theorem separated_inj {xs ys : List α} (other : sep ≠ closing)
    (each : ∀ x ∈ xs, ∀ y ∈ ys, ∀ r r', Bounded r → Bounded r' → text x ++ r = text y ++ r' → x = y ∧ r = r')
    (same : xs.flatMap (sep :: gap ++ text ·) ++ closing :: r = ys.flatMap (sep :: gap ++ text ·) ++ closing :: r') :
    xs = ys ∧ r = r' := by
  have bounded := @bounded_separated α text sep gap ends
  induction xs generalizing ys with
  | nil =>
    cases ys with
    | nil => exact ⟨rfl, (List.cons.inj same).2⟩
    | cons y ys => exact absurd (List.cons.inj same).1.symm other
  | cons x xs ih =>
    cases ys with
    | nil => exact absurd (List.cons.inj same).1 other
    | cons y ys =>
      simp only [List.flatMap_cons, List.cons_append, List.append_assoc, List.cons.injEq, true_and,
        List.append_cancel_left_eq] at same
      obtain ⟨rfl, rest⟩ := each x List.mem_cons_self y List.mem_cons_self _ _ (bounded _ _) (bounded _ _) same
      have later := fun x member y among => each x (List.mem_cons_of_mem _ member) y (List.mem_cons_of_mem _ among)
      obtain ⟨rfl, after⟩ := ih later rest
      exact ⟨rfl, after⟩

end

end Printed

/-- The words that lists start with. -/
inductive Head
  | group
  | unary (op : UnaryOp)
  | binary (op : BinaryOp)
  | logical (op : LogicalOp)
  | assign | call | get | super | print | declare | block | branch | loop | ret | classDef
  deriving DecidableEq

namespace Head

def text : Head → Text
  | group => Text.ofString "group"
  | unary op => op.symbol
  | binary op => op.symbol
  | logical op => op.symbol
  | assign => Text.ofString "="
  | call => Text.ofString "call"
  | get => Text.ofString "."
  | super => Text.ofString "super"
  | print => Text.ofString "print"
  | declare => Text.ofString "var"
  | block => Text.ofString "scope"
  | branch => Text.ofString "if"
  | loop => Text.ofString "while"
  | ret => Text.ofString "return"
  | classDef => Text.ofString "class"

/-- The number of operands of an operator: the minus sign stands for two operators. -/
def operands? : Head → Option Nat
  | unary _ => some 1
  | binary _ => some 2
  | _ => none

/-- So many parts come after the head. -/
def Fits (head : Head) (n : Nat) : Prop := ∀ m, head.operands? = some m → m = n

theorem Fits.free {head : Head} (other : head.operands? = none) : head.Fits n := by
  intro m operands
  rw [other] at operands
  cases operands

theorem Fits.unary (op : UnaryOp) : (Head.unary op).Fits 1 := by
  rintro _ ⟨⟩
  rfl

theorem Fits.binary (op : BinaryOp) : (Head.binary op).Fits 2 := by
  rintro _ ⟨⟩
  rfl

def all : List Head :=
  [group, unary .not, unary .negate, binary .equal, binary .notEqual, binary (.arithmetic .add),
    binary (.arithmetic .sub), binary (.arithmetic .mul), binary (.arithmetic .div), binary (.arithmetic .less),
    binary (.arithmetic .lessEqual), binary (.arithmetic .greater), binary (.arithmetic .greaterEqual), logical .and,
    logical .or, assign, call, get, super, print, declare, block, branch, loop, ret, classDef]

private theorem mem_all (head : Head) : head ∈ all := by
  cases head with
  | unary op => cases op <;> decide
  | binary op =>
    cases op with
    | equal | notEqual => decide
    | arithmetic op => cases op <;> decide
  | logical op => cases op <;> decide
  | _ => decide

/-- Heads are told apart by their words and by how much comes after them. -/
theorem eq_of_text {h h' : Head} (same : h.text = h'.text) (fits : h.Fits n) (fits' : h'.Fits n) : h = h' := by
  have table : ∀ h ∈ all, ∀ h' ∈ all, h.text = h'.text → h = h' ∨
      ∃ m ∈ h.operands?, ∃ m' ∈ h'.operands?, m ≠ m' := by decide +kernel
  rcases table h h.mem_all h' h'.mem_all same with equal | ⟨m, left, m', right, apart⟩
  · exact equal
  · exact absurd ((fits m left).trans (fits' m' right).symm) apart

private theorem plain (head : Head) : Printed.Plain head.text := by
  have table : ∀ head ∈ all, head.text ≠ [] ∧ ∀ b ∈ head.text, Printed.isPlain b = true := by decide +kernel
  exact ⟨(table head head.mem_all).1, (table head head.mem_all).2⟩

private theorem text_ne_function (head : Head) : head.text ≠ Text.ofString "fun" := by
  have table : ∀ head ∈ all, head.text ≠ Text.ofString "fun" := by decide +kernel
  exact table head head.mem_all

end Head

/-- What stands in a printed tree without parentheses. The sign of a superclass is a word of its own. -/
inductive Word
  | literal (value : Literal)
  | name (text : Text)
  | this
  | below
  deriving DecidableEq

/-- Numbers whose texts are numerals. -/
def Number.Legible (numbers : List Float) : Prop := ∀ x ∈ numbers, Numeral (text x)

namespace Word

open Printed

def text : Word → Text
  | literal value => value.source
  | name t => t
  | this => Text.ofString "this"
  | below => Text.ofString "<"

/-- The words of programs whose numbers are among the given ones. -/
def Proper (numbers : List Float) : Word → Prop
  | literal (.number x) => x ∈ numbers
  | literal (.string s) => Chunk.quote ∉ s
  | name t => Text.isIdentifier t = true
  | literal .nil | literal (.bool _) | this | below => True

/-- The words that are always the same. -/
def fixed : List Word := [literal .nil, literal (.bool true), literal (.bool false), this, below]

/-- The word without quotes that has a text. -/
def ofText? (numbers : List Float) (t : Text) : Option Word :=
  if Text.isIdentifier t then some (name t)
  else (fixed.find? (·.text = t)).or ((numbers.find? (Number.text · = t)).map (literal ∘ .number))

private theorem read_fixed (numbers : List Float) (among : w ∈ fixed) :
    Plain w.text ∧ ofText? numbers w.text = some w := by
  have table : ∀ w ∈ fixed, (w.text ≠ [] ∧ ∀ b ∈ w.text, isPlain b = true) ∧
      Text.isIdentifier w.text = false ∧ fixed.find? (·.text = w.text) = some w := by decide +kernel
  obtain ⟨⟨nonempty, inside⟩, word, found⟩ := table w among
  refine ⟨⟨nonempty, inside⟩, ?_⟩
  rw [ofText?, word, if_neg Bool.false_ne_true, found]
  rfl

/-- A numeral is no name, and it is none of the words that are always the same. -/
theorem ofText?_numeral (numeral : Number.Numeral t) (numbers : List Float) :
    ofText? numbers t = (numbers.find? (Number.text · = t)).map (literal ∘ .number) := by
  obtain ⟨b, first, starts⟩ := numeral.starts
  have letter : Text.isLetter b = false := by
    rcases starts with digit | rfl
    · apply Bool.eq_false_iff.2
      intro letter
      rw [Chunk.isDigit_of_isLetter letter] at digit
      cases digit
    · rfl
  have table : ∀ w ∈ fixed, ∀ c ∈ w.text.head?, Text.isLetter c = true ∨ c = '<'.toUInt8 := by decide +kernel
  have other : fixed.find? (·.text = t) = none := by
    apply List.find?_eq_none.2
    intro w among same
    rw [decide_eq_true_eq] at same
    rcases table w among b (by rw [same, first]; rfl) with starts' | rfl
    · rw [letter] at starts'
      cases starts'
    · rcases starts with digit | sign
      · cases digit
      · cases sign
  have unnamed : Text.isIdentifier t = false := by
    cases t with
    | nil => rfl
    | cons c rest =>
      cases first
      rw [Text.isIdentifier, letter]
      rfl
  rw [ofText?, unnamed, if_neg Bool.false_ne_true, other, Option.none_or]

private theorem read_number (legible : Number.Legible numbers) (among : x ∈ numbers) :
    ofText? numbers (Number.text x) = some (literal (.number x)) := by
  rw [ofText?_numeral (legible x among)]
  cases found : numbers.find? (Number.text · = Number.text x) with
  | none => exact absurd (decide_eq_true rfl) (List.find?_eq_none.1 found x among)
  | some y =>
    have same : Number.text y = Number.text x := by simpa using List.find?_some found
    rw [Number.text_injective same]
    rfl

/-- A word is read back from its text, or it stands between quotes. -/
theorem plain_or_string (legible : Number.Legible numbers) (proper : w.Proper numbers) :
    (Plain w.text ∧ ofText? numbers w.text = some w) ∨ ∃ s, w = literal (.string s) ∧ Chunk.quote ∉ s := by
  cases w with
  | name t =>
    refine .inl ⟨plain_of_isIdentifier proper, ?_⟩
    exact if_pos proper
  | this | below => exact .inl (read_fixed numbers (by decide))
  | literal value =>
    cases value with
    | nil => exact .inl (read_fixed numbers (by decide))
    | bool b => cases b <;> exact .inl (read_fixed numbers (by decide))
    | number x => exact .inl ⟨plain_of_numeral (legible x proper), read_number legible proper⟩
    | string s => exact .inr ⟨s, rfl, proper⟩

private theorem string_text_append (s r : Text) :
    text (literal (.string s)) ++ r = Chunk.quote :: (s ++ Chunk.quote :: r) := by
  have mark : Text.ofString "\"" = [Chunk.quote] := by decide +kernel
  simp only [text, Literal.source, mark, List.append_assoc, List.cons_append, List.nil_append]

/-- A string ends at its second quote. -/
theorem string_append_inj (free : Chunk.quote ∉ s) (free' : Chunk.quote ∉ s')
    (same : text (literal (.string s)) ++ r = text (literal (.string s')) ++ r') : s = s' ∧ r = r' := by
  have run : ∀ t u, Chunk.quote ∉ t → Chunk.run (· != Chunk.quote) (t ++ Chunk.quote :: u) = (t, Chunk.quote :: u) := by
    intro t u free
    apply Chunk.run_append
    · intro b member
      rw [bne_iff_ne]
      rintro rfl
      exact free member
    · rintro _ ⟨⟩
      rfl
  rw [string_text_append, string_text_append] at same
  obtain ⟨-, body⟩ := List.cons.inj same
  have first := run s r free
  rw [body, run s' r' free'] at first
  obtain ⟨rfl, rest⟩ := Prod.mk.inj first
  exact ⟨rfl, (List.cons.inj rest).2.symm⟩

private theorem append_inj {w w' : Word} (legible : Number.Legible numbers) (left : w.Proper numbers)
    (right : w'.Proper numbers)
    (ends : Bounded r) (ends' : Bounded r') (same : w.text ++ r = w'.text ++ r') : w = w' ∧ r = r' := by
  rcases plain_or_string legible left with ⟨plain, read⟩ | ⟨s, rfl, free⟩
  · rcases plain_or_string legible right with ⟨plain', read'⟩ | ⟨s, rfl, -⟩
    · obtain ⟨texts, rest⟩ := plain.append_inj plain' ends ends' same
      rw [texts, read'] at read
      exact ⟨(Option.some.inj read).symm, rest⟩
    · exact absurd same (plain.ne_cons rfl)
  · rcases plain_or_string legible right with ⟨plain, -⟩ | ⟨s', rfl, free'⟩
    · exact absurd same.symm (plain.ne_cons rfl)
    · obtain ⟨rfl, rest⟩ := string_append_inj free free' same
      exact ⟨rfl, rest⟩

end Word

/-- Printed trees. The names of the parameters of a function are between parentheses too, but with commas. -/
inductive Printed
  | word (w : Word)
  | node (head : Head) (parts : List Printed)
  | function (name : Text) (params : List Text) (body : List Printed)

namespace Printed

def commaList (names : List Text) : Text :=
  Text.ofString "(" ++ (Text.ofString ", ").intercalate names ++ Text.ofString ")"

mutual

def text : Printed → Text
  | .word w => w.text
  | .node head parts => parenthesized (head.text :: texts parts)
  | .function name params body => parenthesized (Text.ofString "fun" :: name :: commaList params :: texts body)

def texts : List Printed → List Text
  | [] => []
  | p :: rest => p.text :: texts rest

end

private theorem texts_eq_map (parts : List Printed) : texts parts = parts.map text := by
  induction parts with
  | nil => rfl
  | cons p rest ih => rw [texts, ih, List.map_cons]

/-- Printed trees of programs whose numbers are among the given ones. -/
inductive Proper (numbers : List Float) : Printed → Prop where
  | word (proper : w.Proper numbers) : Proper numbers (.word w)
  | node (fits : head.Fits parts.length) (inside : ∀ p ∈ parts, Proper numbers p) : Proper numbers (.node head parts)
  | function (named : Text.isIdentifier name = true) (names : ∀ param ∈ params, Text.isIdentifier param = true)
      (inside : ∀ p ∈ body, Proper numbers p) : Proper numbers (.function name params body)

theorem Proper.one (fits : head.Fits 1) (only : Proper numbers p) : Proper numbers (.node head [p]) :=
  .node fits (List.forall_mem_singleton.2 only)

theorem Proper.two (fits : head.Fits 2) (first : Proper numbers p) (second : Proper numbers q) :
    Proper numbers (.node head [p, q]) :=
  .node fits (List.forall_mem_cons.2 ⟨first, List.forall_mem_singleton.2 second⟩)

theorem Proper.three (fits : head.Fits 3) (first : Proper numbers p) (second : Proper numbers q)
    (third : Proper numbers u) : Proper numbers (.node head [p, q, u]) :=
  .node fits (List.forall_mem_cons.2 ⟨first, List.forall_mem_cons.2 ⟨second, List.forall_mem_singleton.2 third⟩⟩)

/-! The texts of lists, with what comes after them. -/

private theorem intercalate_cons (sep first : Text) (rest : List Text) :
    sep.intercalate (first :: rest) = first ++ rest.flatMap (sep ++ ·) := by
  induction rest generalizing first with
  | nil => simp [List.intercalate]
  | cons next rest ih =>
    have further : sep.intercalate (first :: next :: rest) = first ++ (sep ++ sep.intercalate (next :: rest)) := by
      simp [List.intercalate]
    rw [further, ih, List.flatMap_cons, List.append_assoc]

private theorem parenthesized_append (first : Text) (rest : List Text) (r : Text) :
    parenthesized (first :: rest) ++ r =
      opening :: (first ++ (rest.flatMap (Chunk.space :: ·) ++ closing :: r)) := by
  have marks : Text.ofString "(" = [opening] ∧ Text.ofString ")" = [closing] ∧ Text.ofString " " = [Chunk.space] := by
    decide +kernel
  obtain ⟨left, right, space⟩ := marks
  simp only [parenthesized, intercalate_cons, left, right, space, List.append_assoc, List.cons_append, List.nil_append]

private theorem spaced_texts (parts : List Printed) :
    (texts parts).flatMap (Chunk.space :: ·) = parts.flatMap (Chunk.space :: [] ++ text ·) := by
  rw [texts_eq_map, List.flatMap_map]
  rfl

private theorem node_append (head : Head) (parts : List Printed) (r : Text) : (node head parts).text ++ r =
    opening :: (head.text ++ (parts.flatMap (Chunk.space :: [] ++ text ·) ++ closing :: r)) := by
  rw [text, parenthesized_append, spaced_texts]

private theorem function_append (name : Text) (params : List Text) (body : List Printed) (r : Text) :
    (function name params body).text ++ r = opening :: (Text.ofString "fun" ++ Chunk.space :: (name ++ Chunk.space ::
      (commaList params ++ (body.flatMap (Chunk.space :: [] ++ text ·) ++ closing :: r)))) := by
  rw [text, parenthesized_append]
  simp only [List.flatMap_cons, spaced_texts, List.append_assoc, List.cons_append]

private theorem commaList_cons_append (first : Text) (rest : List Text) (r : Text) : commaList (first :: rest) ++ r =
    opening :: (first ++ (rest.flatMap (comma :: [Chunk.space] ++ id ·) ++ closing :: r)) := by
  have marks : Text.ofString "(" = [opening] ∧ Text.ofString ")" = [closing] ∧
      Text.ofString ", " = [comma, Chunk.space] := by decide +kernel
  obtain ⟨left, right, gap⟩ := marks
  simp only [commaList, intercalate_cons, left, right, gap, List.append_assoc, List.cons_append, List.nil_append, id]

private theorem commaList_nil_append (r : Text) : commaList [] ++ r = opening :: closing :: r := by
  have mark : commaList [] = [opening, closing] := by decide +kernel
  rw [mark]
  rfl

private theorem commaList_append_inj {xs ys : List Text} (left : ∀ x ∈ xs, Text.isIdentifier x = true)
    (right : ∀ y ∈ ys, Text.isIdentifier y = true) (same : commaList xs ++ r = commaList ys ++ r') :
    xs = ys ∧ r = r' := by
  cases xs with
  | nil =>
    cases ys with
    | nil =>
      rw [commaList_nil_append, commaList_nil_append] at same
      exact ⟨rfl, (List.cons.inj (List.cons.inj same).2).2⟩
    | cons y ys =>
      have plain := plain_of_isIdentifier (right y List.mem_cons_self)
      rw [commaList_nil_append, commaList_cons_append] at same
      exact absurd (List.cons.inj same).2.symm (plain.ne_cons rfl)
  | cons x xs =>
    have plain := plain_of_isIdentifier (left x List.mem_cons_self)
    cases ys with
    | nil =>
      rw [commaList_nil_append, commaList_cons_append] at same
      exact absurd (List.cons.inj same).2 (plain.ne_cons rfl)
    | cons y ys =>
      have plain' := plain_of_isIdentifier (right y List.mem_cons_self)
      rw [commaList_cons_append, commaList_cons_append] at same
      obtain ⟨rfl, rest⟩ := plain.append_inj plain' (bounded_separated _ rfl _ _) (bounded_separated _ rfl _ _)
        (List.cons.inj same).2
      have each : ∀ x ∈ xs, ∀ y ∈ ys, ∀ r r', Bounded r → Bounded r' → id x ++ r = id y ++ r' → x = y ∧ r = r' := by
        intro x member y among r r' ends ends' same
        exact (plain_of_isIdentifier (left x (List.mem_cons_of_mem _ member))).append_inj
          (plain_of_isIdentifier (right y (List.mem_cons_of_mem _ among))) ends ends' same
      obtain ⟨rfl, after⟩ := separated_inj _ rfl (by decide) each rest
      exact ⟨rfl, after⟩

private theorem node_ne_function {head : Head} :
    (node head parts).text ++ r ≠ (function name params body).text ++ r' := by
  intro same
  rw [node_append, function_append] at same
  have keyword : Plain (Text.ofString "fun") := ⟨by decide +kernel, by decide +kernel⟩
  obtain ⟨heads, -⟩ := head.plain.append_inj keyword (bounded_separated _ rfl _ _) (bounded_cons rfl)
    (List.cons.inj same).2
  exact head.text_ne_function heads

private theorem word_ne_list (legible : Number.Legible numbers) (proper : w.Proper numbers) :
    (word w).text ++ r ≠ opening :: u := by
  rw [text]
  rcases Word.plain_or_string legible proper with ⟨plain, -⟩ | ⟨s, rfl, -⟩
  · exact plain.ne_cons rfl
  · intro same
    rw [Word.string_text_append] at same
    cases (List.cons.inj same).1

/-- A printed tree is told from its text, whatever comes after it. -/
theorem Proper.append_inj (legible : Number.Legible numbers) (left : Proper numbers p) (right : Proper numbers q)
    (ends : Bounded r) (ends' : Bounded r') (same : p.text ++ r = q.text ++ r') : p = q ∧ r = r' := by
  -- over the left tree; what ends a part of a list is the blank or the parenthesis after it, so only the list itself
  -- has to be ended by what comes after
  induction left generalizing q r r' with
  | word proper =>
    cases right with
    | word proper' =>
      obtain ⟨rfl, rest⟩ := Word.append_inj legible proper proper' ends ends' same
      exact ⟨rfl, rest⟩
    | node => exact absurd (same.trans (node_append ..)) (word_ne_list legible proper)
    | function => exact absurd (same.trans (function_append ..)) (word_ne_list legible proper)
  | @node parts head fits inside ih =>
    cases right with
    | word proper' => exact absurd (same.symm.trans (node_append ..)) (word_ne_list legible proper')
    | @node parts' head' fits' inside' =>
      rw [node_append, node_append] at same
      obtain ⟨heads, rest⟩ := head.plain.append_inj head'.plain (bounded_separated _ rfl _ _)
        (bounded_separated _ rfl _ _) (List.cons.inj same).2
      obtain ⟨rfl, after⟩ := separated_inj _ rfl (by decide)
        (fun p member q among _ _ ends ends' same => ih p member (inside' q among) ends ends' same) rest
      rw [Head.eq_of_text heads fits fits']
      exact ⟨rfl, after⟩
    | function => exact absurd same node_ne_function
  | function named names inside ih =>
    cases right with
    | word proper' => exact absurd (same.symm.trans (function_append ..)) (word_ne_list legible proper')
    | node => exact absurd same.symm node_ne_function
    | function named' names' inside' =>
      rw [function_append, function_append, List.cons_inj_right, List.append_cancel_left_eq, List.cons_inj_right] at same
      obtain ⟨rfl, rest⟩ := (plain_of_isIdentifier named).append_inj (plain_of_isIdentifier named')
        (bounded_cons rfl) (bounded_cons rfl) same
      obtain ⟨rfl, further⟩ := commaList_append_inj names names' (List.cons.inj rest).2
      obtain ⟨rfl, after⟩ := separated_inj _ rfl (by decide)
        (fun p member q among _ _ ends ends' same => ih p member (inside' q among) ends ends' same) further
      exact ⟨rfl, after⟩

/-- So are the printed trees of a program, one to a line. -/
theorem unlines_inj (legible : Number.Legible numbers) (left : ∀ p ∈ ps, Proper numbers p)
    (right : ∀ q ∈ qs, Proper numbers q) (same : Text.unlines (texts ps) = Text.unlines (texts qs)) : ps = qs := by
  have line : ∀ p rest, Text.unlines (texts (p :: rest)) = p.text ++ Text.newline :: Text.unlines (texts rest) := by
    intro p rest
    simp [Text.unlines, texts]
  induction ps generalizing qs with
  | nil =>
    cases qs with
    | nil => rfl
    | cons q qs =>
      rw [line] at same
      simp [Text.unlines, texts] at same
  | cons p ps ih =>
    cases qs with
    | nil =>
      rw [line] at same
      simp [Text.unlines, texts] at same
    | cons q qs =>
      rw [line, line] at same
      obtain ⟨rfl, rest⟩ := (left p List.mem_cons_self).append_inj legible (right q List.mem_cons_self)
        (bounded_cons rfl) (bounded_cons rfl) same
      have others := ih (fun p member => left p (List.mem_cons_of_mem _ member))
        (fun q member => right q (List.mem_cons_of_mem _ member)) (List.cons.inj rest).2
      rw [others]

end Printed

end Lox
