import GraphQLSyntax.Lexeme.Basic

/-!
# Keyword tables

Which names count as keywords depends on the place in the grammar: `query` opens an operation at
the top of a document and is an ordinary field name inside a selection set. Each place consults
one table.

* `KeywordTable.classify`: the keyword a name spells, or a plain name.
-/

namespace GraphQLSyntax

/-- A list of keyword lexemes that a name may be read as. -/
structure KeywordTable where
  keywords : List Lexeme
deriving DecidableEq, Repr

namespace KeywordTable

/-- `true`, `false` and `null`. -/
def value : KeywordTable := ⟨[.trueValue, .falseValue, .nullValue]⟩

/-- The keywords of executable documents. -/
def execution : KeywordTable := ⟨[.query, .mutation, .subscription, .fragment, .onKeyword]⟩

/-- The keywords of schema documents, known only so that they can be refused by name. -/
def definition : KeywordTable :=
  ⟨[.schema, .directiveKeyword, .enumKeyword, .input, .interface, .scalar, .type, .union, .extend,
    .implements, .repeatable]⟩

/-- The keyword that `text` spells exactly, or a plain name. -/
def classify (table : KeywordTable) (text : String) : Lexeme :=
  (table.keywords.find? fun k => k.spelling? == some text).getD .name

/-- The place of a keyword in its table. -/
def index? (table : KeywordTable) (keyword : Lexeme) : Option Nat :=
  table.keywords.findIdx? (· == keyword)

end KeywordTable

end GraphQLSyntax
