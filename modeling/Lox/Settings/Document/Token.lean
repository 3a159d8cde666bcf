import Lox.Settings.Document

/-! The tokens of a document. Indentation and the keys of mappings have tokens of their own, so that
the structure of a document can be read off its tokens. -/

namespace Lox.Document

/-- The collections, by their closing bracket. -/
inductive Collection
  | sequence | mapping
  deriving DecidableEq, Repr

def Collection.closing : Collection → Char
  | sequence => ']'
  | mapping => '\x7d'

namespace Token

/-- A tag as it is written: the handle stands for the start of the name, unless it is empty. -/
structure Tag where
  handle : Text
  suffix : Text
  deriving DecidableEq

inductive Kind
  | start | finish
  | documentStart | documentEnd
  | version (major minor : Nat)
  | handle (name value : Text)
  | block (c : Collection) | blockEnd
  | opening (c : Collection) | closing (c : Collection)
  | item | comma | key | value
  | anchor (name : String) | reference (name : String)
  | tag (t : Tag)
  | scalar (plain : Bool) (text : String)
  deriving DecidableEq

end Token

structure Token where
  kind : Token.Kind
  mark : Mark

end Lox.Document
