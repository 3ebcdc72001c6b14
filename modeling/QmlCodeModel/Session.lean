import QmlCodeModel.OpenDocument

/-! The documents that are open at one time, and what an editor does with them. They share one count of
readings, and the ranges of each reading are made once, when they are asked for first. -/
namespace QmlCodeModel

structure Session where
  documents : List OpenDocument := []
  /-- The number of the next reading. -/
  nextIdentity : Nat := 1
  /-- The ranges of documents, by their places in the list, once they have been asked for. -/
  rangesKept : FiniteMap Nat Ranges := {}

namespace Session

/-- Takes in a document. It gets a number of its own before it is read. -/
def add (s : Session) (d : Document) : Session :=
  { s with
    documents := s.documents ++ [⟨d, s.nextIdentity⟩]
    nextIdentity := s.nextIdentity + 1 }

/-- Opens a file. -/
def openFile (s : Session) (workingDirectory file : Path) : Session :=
  s.add (.edited workingDirectory file)

/-- Changes a document, without a new reading. -/
def edit (s : Session) (index : Nat) (f : Document → Document) : Session :=
  { s with documents := s.documents.modify index fun d => { d with document := f d.document } }

/-- Reads a document anew, in some form. -/
def readAs (s : Session) (index : Nat) (form : SourceForm) : Session :=
  { s with
    documents := s.documents.modify index fun d => ⟨d.document.readAs form, s.nextIdentity⟩
    nextIdentity := s.nextIdentity + 1 }

/-- Reads a document anew, in the form of its dialect. -/
def read (s : Session) (index : Nat) : Session :=
  match s.documents[index]? with
  | some d => s.readAs index d.document.dialect.form
  | none => s

/-- Replaces the source of a document and reads it. The ranges of the source before are dropped. -/
def parse (s : Session) (index : Nat) (source : String) : Session :=
  { s.edit index (·.setSource source) with rangesKept := s.rangesKept.erase index }.read index

/-- The ranges of a document: those that are kept, or else they are made now and kept. -/
def ranges (s : Session) (index : Nat) : Ranges × Session :=
  match s.documents[index]? with
  | none => ({}, s)
  | some d =>
    match s.rangesKept.get? index with
    | some ranges => (ranges, s)
    | none => (d.ranges, { s with rangesKept := s.rangesKept.insert index d.ranges })

/-- What a reference to an object is asked for by. -/
inductive Question
  | root
  | named (id : String)
  /-- The object around an offset. -/
  | around (offset : Nat)
  /-- The object that another is a part of. -/
  | parentOf (v : ValueReference)
  deriving DecidableEq, Repr

/-- Asks a document for a reference. There may be nothing to refer to. -/
def ask (s : Session) (index : Nat) (q : Question) : Option ValueReference × Session :=
  match s.documents[index]? with
  | none => (none, s)
  | some d =>
    match q with
    | .root => (some d.rootObject, s)
    | .named id => (some (d.valueForId id), s)
    | .around offset => (some (d.valueIn (s.ranges index).1 offset).1, (s.ranges index).2)
    | .parentOf v => ((d.describe? v).map ObjectDescription.parent, s)

end Session
end QmlCodeModel
