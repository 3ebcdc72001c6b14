import QmlCodeModel.Proofs.Token.Piece
import QmlCodeModel.Text.CharClass.LetterCase

/-! Sketches: trees of objects as they are to be written in a document, with one member on a line. What is
not allowed in a document cannot be sketched. -/
namespace QmlCodeModel

/-- A name that is no word of the grammar. -/
structure Name extends Word where
  free : isReserved text = false := by decide
  deriving DecidableEq

/-- Names joined by dots. -/
structure DottedName where
  first : Name
  later : List Name := []
  deriving DecidableEq

namespace DottedName

def names (d : DottedName) : List String := (d.first :: d.later).map (·.text)

def joined (d : DottedName) : String := ".".intercalate d.names

/-- The parts of a dotted name after the first. -/
def tail : List Name → List Piece
  | [] => []
  | n :: later => ⟨.none,.mark .dot⟩ :: ⟨.none,.word n.toWord⟩ :: tail later

def pieces (d : DottedName) (gap : Gap) : List Piece := ⟨gap,.word d.first.toWord⟩ :: tail d.later

end DottedName

/-- A dotted name that a type can have: each part starts with a capital. -/
structure TypeName extends DottedName where
  capital : ∀ name ∈ first :: later, startsUppercase name.text := by decide +kernel
  deriving DecidableEq

/-- A dotted name that a group of properties can have: it starts with a small letter. -/
structure GroupName extends DottedName where
  small : startsLowercase first.text := by decide +kernel
  deriving DecidableEq

/-- The name of a property that has a script. An id is no property. -/
structure ScriptName extends DottedName where
  noId : toDottedName.joined ≠ "id" := by decide
  deriving DecidableEq

/-- A decimal integer as it is written. -/
structure Numeral where
  negative : Bool := false
  digits : Digits
  deriving DecidableEq

def Numeral.pieces (n : Numeral) (gap : Gap) : List Piece :=
  if n.negative then [⟨gap,.mark .minus⟩,⟨.none,.digits n.digits⟩] else [⟨gap,.digits n.digits⟩]

mutual

/-- An object: its type and its members. -/
inductive Sketch
  | mk (typeName : TypeName) (members : List Sketch.Member)

/-- A member of an object or of a group. -/
inductive Sketch.Member
  /-- A number for a property. -/
  | script (name : ScriptName) (value : Numeral)
  /-- Properties of a property, in braces. -/
  | group (name : GroupName) (members : List Sketch.Member)
  /-- An object for a property. -/
  | bound (name : DottedName) (object : Sketch)
  /-- An object put on a property. -/
  | put (object : Sketch) (target : DottedName)
  /-- Objects in brackets for a property. -/
  | array (name : DottedName) (first : Sketch) (later : List Sketch)
  /-- An object inside the object. -/
  | child (object : Sketch)

end

namespace Sketch

def typeName : Sketch → TypeName
  | mk typeName _ => typeName

def members : Sketch → List Member
  | mk _ members => members

mutual

/-- How deep objects stand inside one another. A group is the object of its property. -/
def height : Sketch → Nat
  | mk _ members => highest members + 1

def Member.height : Member → Nat
  | .script _ _ => 0
  | .group _ members => highest members + 1
  | .bound _ object => object.height
  | .put object _ => object.height
  | .array _ first later => max first.height (tallest later)
  | .child object => object.height

/-- The height of the highest of some members. -/
def highest : List Member → Nat
  | [] => 0
  | m :: members => max m.height (highest members)

/-- The height of the highest of some objects. -/
def tallest : List Sketch → Nat
  | [] => 0
  | s :: sketches => max s.height (tallest sketches)

end

section

variable (w : Nat)

/-- What stands in braces on lines of its own. Each level is indented by the same width. -/
def braced (level : Nat) (inner : List Piece) : List Piece :=
  ⟨.blank,.mark .opening⟩ :: (inner ++ [⟨.line (w * level),.mark .closing⟩])

def bracketed (inner : List Piece) : List Piece :=
  ⟨.blank,.mark .listOpening⟩ :: (inner ++ [⟨.blank,.mark .listClosing⟩])

def onWord : Word := { text := "on" }

/-- What an object put on a property has before its braces. -/
def putHead (level : Nat) (typeName : TypeName) (target : DottedName) : List Piece :=
  typeName.pieces (.line (w * level)) ++ ⟨.blank,.word onWord⟩ :: target.pieces .blank

/-- The dotted name of a property. -/
def Member.name? : Member → Option (List String)
  | .script name _ => some name.names
  | .group name _ => some name.names
  | .bound name _ => some name.names
  | .put _ target => some target.names
  | .array name _ _ => some name.names
  | .child _ => none

/-- What stands on the line of a property before its value. -/
def Member.lead (level : Nat) : Member → List Piece
  | .script name _ => name.pieces (.line (w * level)) ++ [⟨.none,.mark .colon⟩]
  | .group name _ => name.pieces (.line (w * level))
  | .bound name _ => name.pieces (.line (w * level)) ++ [⟨.none,.mark .colon⟩]
  | .array name _ _ => name.pieces (.line (w * level)) ++ [⟨.none,.mark .colon⟩]
  | .put _ _ => []
  | .child _ => []

mutual

/-- An object, which stands on a line of some level. -/
def pieces (gap : Gap) (level : Nat) : Sketch → List Piece
  | mk typeName members => typeName.pieces gap ++ braced w level (lines (level + 1) members)

/-- The value of a property, or an object inside the object. -/
def Member.value (level : Nat) : Member → List Piece
  | .script _ value => value.pieces .blank
  | .group _ members => braced w level (lines (level + 1) members)
  | .bound _ object => object.pieces .blank level
  | .put (mk typeName members) target =>
    putHead w level typeName target ++ braced w level (lines (level + 1) members)
  | .array _ first later => bracketed (first.pieces .blank level ++ others level later)
  | .child object => object.pieces (.line (w * level)) level

/-- Members, each on a line of its own. -/
def lines (level : Nat) : List Member → List Piece
  | [] => []
  | m :: members => m.lead w level ++ (m.value level ++ lines level members)

/-- Further objects of an array. -/
def others (level : Nat) : List Sketch → List Piece
  | [] => []
  | s :: sketches => ⟨.none,.mark .comma⟩ :: (s.pieces .blank level ++ others level sketches)

end

/-- The braces of an object or a group. -/
def braces (level : Nat) (members : List Member) : List Piece :=
  braced w level (lines w (level + 1) members)

lemma pieces_mk (gap : Gap) (level : Nat) (typeName : TypeName) (members : List Member) :
    (mk typeName members).pieces w gap level = typeName.pieces gap ++ braces w level members := by
  rw [pieces,braces]

/-- The objects of an array, of which there is one at least. -/
def row (level : Nat) (first : Sketch) (later : List Sketch) : List Piece :=
  bracketed (first.pieces w .blank level ++ others w level later)

/-- The text of a document with this object, each level indented by the same width. -/
def render (s : Sketch) : String := String.ofList (written (s.pieces w .none 0))

/-- The text of the value of a property, from its first token on. -/
def Member.valueText (level : Nat) (m : Member) : String := String.ofList (bare (m.value w level))

end

end Sketch

/-! Sketches are legible. -/

/-- Pieces that start with a gap. -/
def Spaced (pieces : List Piece) : Prop := ∀ p ∈ pieces.head?, p.gap ≠ .none

/-- Pieces that may follow a name: a gap or a punctuator comes first. -/
def FollowsName (pieces : List Piece) : Prop :=
  ∀ p ∈ pieces.head?, p.gap = .none → ∃ m, p.glyph = .mark m

/-- Pieces that may follow a brace: a gap or a comma comes first. -/
def FollowsBrace (pieces : List Piece) : Prop :=
  ∀ p ∈ pieces.head?, p.gap = .none → p.glyph = .mark .comma

variable {w level : Nat} {gap : Gap} {pieces later : List Piece}

lemma Spaced.followsName (h : Spaced pieces) : FollowsName pieces :=
  fun p hp hgap => absurd hgap (h p hp)

lemma Spaced.append (h : Spaced pieces) (hlater : Spaced later) : Spaced (pieces ++ later) := by
  cases pieces with
  | nil => exact hlater
  | cons p pieces => exact h

/-- A piece may come first where a gap keeps it apart. -/
lemma Spaced.legible_cons {p : Piece} (hspaced : Spaced pieces) (h : Legible pieces) :
    Legible (p :: pieces) :=
  List.isChain_cons.mpr ⟨fun q hq hgap => absurd hgap (hspaced q hq),h⟩

lemma Legible.append (h : Legible pieces) (hlater : Legible later) (hspaced : Spaced later) :
    Legible (pieces ++ later) :=
  List.isChain_append.mpr ⟨h,hlater,fun _ _ q hq hgap => absurd hgap (hspaced q hq)⟩

lemma legible_word (word : Word) (h : Legible later) (hfollows : FollowsName later) :
    Legible (⟨gap,.word word⟩ :: later) := by
  refine List.isChain_cons.mpr ⟨fun q hq hgap => ?_,h⟩
  obtain ⟨m,hm⟩ := hfollows q hq hgap
  rw [hm]
  rfl

lemma legible_tail (names : List Name) (h : Legible later) (hfollows : FollowsName later) :
    Legible (DottedName.tail names ++ later) ∧ FollowsName (DottedName.tail names ++ later) := by
  induction names with
  | nil => exact ⟨h,hfollows⟩
  | cons n names ih =>
    refine ⟨?_,fun p hp _ => ⟨.dot,by cases hp; rfl⟩⟩
    refine List.isChain_cons.mpr ⟨fun q hq _ => ?_,legible_word n.toWord ih.1 ih.2⟩
    obtain rfl : ⟨.none,.word n.toWord⟩ = q := by simpa using hq
    rfl

lemma DottedName.legible (d : DottedName) (h : Legible later) (hfollows : FollowsName later) :
    Legible (d.pieces gap ++ later) :=
  have := legible_tail d.later h hfollows
  legible_word d.first.toWord this.1 this.2

lemma Numeral.legible (n : Numeral) : Legible (n.pieces gap) := by
  unfold Numeral.pieces
  split
  · exact List.isChain_cons_cons.mpr ⟨fun _ => rfl,List.isChain_singleton _⟩
  · exact List.isChain_singleton _

lemma spaced_cons (glyph : Glyph) (h : gap ≠ .none) : Spaced (⟨gap,glyph⟩ :: later) := by
  rintro p ⟨⟩
  exact h

namespace Sketch

lemma legible_braces {inner : List Piece} (h : Legible inner) (hspaced : Spaced inner)
    (hlater : Legible later) (hfollows : FollowsBrace later) :
    Legible (braced w level inner ++ later) := by
  have hclosing : Legible (⟨.line (w * level),.mark .closing⟩ :: later) := by
    refine List.isChain_cons.mpr ⟨fun q hq hgap => ?_,hlater⟩
    rw [hfollows q hq hgap]
    rfl
  have hline : Spaced (⟨.line (w * level),.mark .closing⟩ :: later) := spaced_cons _ (by simp)
  rw [braced,List.cons_append,List.append_assoc]
  exact (hspaced.append hline).legible_cons (h.append hclosing hline)

lemma legible_braced {inner : List Piece} (h : Legible inner) (hspaced : Spaced inner) :
    Legible (braced w level inner) := by
  have hblock : Legible (braced w level inner ++ []) := legible_braces h hspaced List.isChain_nil nofun
  rwa [List.append_nil] at hblock

lemma legible_brackets {inner : List Piece} (h : Legible inner) (hspaced : Spaced inner) :
    Legible (bracketed inner) := by
  have hclosing : Spaced [⟨.blank,.mark .listClosing⟩] := spaced_cons _ (by simp)
  exact (hspaced.append hclosing).legible_cons (h.append (List.isChain_singleton _) hclosing)

lemma spaced_value (level : Nat) (m : Member) : Spaced (m.value w level) := by
  cases m with
  | script name value =>
    unfold Member.value Numeral.pieces
    split <;> exact spaced_cons _ (by simp)
  | put object target =>
    obtain ⟨typeName,members⟩ := object
    exact spaced_cons _ (by simp)
  | bound name object | child object =>
    obtain ⟨typeName,members⟩ := object
    exact spaced_cons _ (by simp)
  | group name members | array name first later => exact spaced_cons _ (by simp)

lemma spaced_lines (level : Nat) (members : List Member) : Spaced (lines w level members) := by
  cases members with
  | nil => nofun
  | cons m members =>
    cases m with
    | script name value | group name members | bound name object | array name first later =>
      exact spaced_cons _ (by simp)
    | put object target | child object =>
      obtain ⟨typeName,members⟩ := object
      exact spaced_cons _ (by simp)

/-- A value may follow what stands before it on its line. -/
lemma legible_lead (m : Member) (h : Legible (m.value w level)) :
    Legible (m.lead w level ++ m.value w level) := by
  have hspaced := spaced_value (w := w) level m
  have hname (name : DottedName) : Legible (name.pieces (.line (w * level)) ++ m.value w level) :=
    name.legible h hspaced.followsName
  have hcolon (name : DottedName) :
      Legible (name.pieces (.line (w * level)) ++ [⟨.none,.mark .colon⟩] ++ m.value w level) := by
    rw [List.append_assoc]
    apply name.legible
    · exact hspaced.legible_cons h
    · rintro p ⟨⟩ -
      exact ⟨.colon,rfl⟩
  cases m with
  | script name value => exact hcolon name.toDottedName
  | group name members => exact hname name.toDottedName
  | bound name object => exact hcolon name
  | array name first later => exact hcolon name
  | put object target | child object => exact h

mutual

lemma legible_pieces (gap : Gap) (level : Nat) (s : Sketch) {later : List Piece} (h : Legible later)
    (hfollows : FollowsBrace later) : Legible (s.pieces w gap level ++ later) := by
  cases s with
  | mk typeName members =>
    rw [pieces,List.append_assoc]
    apply typeName.legible
    · exact legible_braces (legible_lines (level + 1) members) (spaced_lines _ _) h hfollows
    · exact Spaced.followsName (spaced_cons _ (by simp))

lemma legible_value (level : Nat) (m : Member) : Legible (m.value w level) := by
  have halone {gap : Gap} {s : Sketch} (h : Legible (s.pieces w gap level ++ [])) :
      Legible (s.pieces w gap level) := by rwa [List.append_nil] at h
  cases m with
  | script name value => exact value.legible
  | group name members => exact legible_braced (legible_lines (level + 1) members) (spaced_lines _ _)
  | bound name object => exact halone (legible_pieces .blank level object List.isChain_nil nofun)
  | put object target =>
    cases object with
    | mk typeName members =>
      have hbody : Legible (braced w level (lines w (level + 1) members)) :=
        legible_braced (legible_lines (level + 1) members) (spaced_lines _ _)
      have hblank (glyph : Glyph) (later : List Piece) : FollowsName (⟨.blank,glyph⟩ :: later) :=
        Spaced.followsName (spaced_cons _ (by simp))
      rw [Member.value,putHead,List.append_assoc]
      apply typeName.legible
      · exact legible_word onWord (target.legible hbody (hblank _ _)) (hblank _ _)
      · exact hblank _ _
  | array name first later =>
    obtain ⟨hlater,hcomma⟩ := legible_others level later
    have h := legible_pieces .blank level first hlater hcomma
    cases first
    exact legible_brackets h (spaced_cons _ (by simp))
  | child object => exact halone (legible_pieces (.line (w * level)) level object List.isChain_nil nofun)

lemma legible_lines (level : Nat) (members : List Member) : Legible (lines w level members) := by
  cases members with
  | nil => exact List.isChain_nil
  | cons m members =>
    rw [lines,← List.append_assoc]
    exact (legible_lead m (legible_value level m)).append (legible_lines level members) (spaced_lines _ _)

lemma legible_others (level : Nat) (sketches : List Sketch) :
    Legible (others w level sketches) ∧ FollowsBrace (others w level sketches) := by
  cases sketches with
  | nil => exact ⟨List.isChain_nil,nofun⟩
  | cons s sketches =>
    obtain ⟨hlater,hcomma⟩ := legible_others level sketches
    refine ⟨List.isChain_cons.mpr ⟨?_,legible_pieces .blank level s hlater hcomma⟩,?_⟩
    · cases s
      rintro q ⟨⟩ hgap
      exact absurd hgap (by simp)
    · rintro p ⟨⟩ -
      rfl

end

/-- A document with a sketch is cut into the pieces of the sketch. -/
theorem legible (s : Sketch) : Legible (s.pieces w .none 0) := by
  have h := legible_pieces (w := w) .none 0 s List.isChain_nil nofun
  rwa [List.append_nil] at h

end Sketch

end QmlCodeModel
