import Mathlib.Data.List.Induction
import QmlCodeModel.Library.Registry
import QmlCodeModel.Proofs.Files.Detours

/-! How far a store of libraries answers as if it read them anew, after files have been changed, libraries have
been asked for and directories have been forgotten in any order. All that a `qmldir` file says is up to date;
what else was found is as it was when the library was last read. -/
namespace QmlCodeModel

/-- The file that makes a directory a library. -/
def Path.qmldir (directory : Path) : Path := directory.join ⟨Qmldir.fileName⟩

namespace FileSystem

variable {s s' : FileSystem} {p directory : Path}

end FileSystem

open FileSystem

namespace Library

variable {s s' : FileSystem} {directory : Path} {l l' l'' : Library}

/-- What the description of a library says, apart from what its other files hold. -/
def SameRecords (l l' : Library) : Prop :=
  l.isValid = l'.isValid ∧ l.module? = l'.module? ∧ l.components = l'.components ∧ l.plugins = l'.plugins ∧
    l.typeInfos = l'.typeInfos

namespace SameRecords

lemma refl (l : Library) : l.SameRecords l := ⟨rfl,rfl,rfl,rfl,rfl⟩

lemma symm (h : l.SameRecords l') : l'.SameRecords l := by
  obtain ⟨hvalid,hmodule,hcomponents,hplugins,htypes⟩ := h
  exact ⟨hvalid.symm,hmodule.symm,hcomponents.symm,hplugins.symm,htypes.symm⟩

lemma trans (h : l.SameRecords l') (h' : l'.SameRecords l'') : l.SameRecords l'' := by
  obtain ⟨hvalid,hmodule,hcomponents,hplugins,htypes⟩ := h
  obtain ⟨hvalid',hmodule',hcomponents',hplugins',htypes'⟩ := h'
  exact ⟨hvalid.trans hvalid',hmodule.trans hmodule',hcomponents.trans hcomponents',hplugins.trans hplugins',
    htypes.trans htypes'⟩

end SameRecords

end Library

namespace LibraryRegistry

/-- What happens around a store of libraries. -/
inductive Event
  /-- The files are these from now on. -/
  | files (s : FileSystem)
  | library (directory : Path)
  | invalidate (directory : Path)

/-- The files, and what has been read of them. -/
structure World where
  files : FileSystem
  registry : LibraryRegistry := {}

namespace World

def after (w : World) : Event → World
  | .files s => { w with files := s }
  | .library directory => { w with registry := (w.registry.library w.files directory).2 }
  | .invalidate directory => { w with registry := (w.registry.invalidate directory).2 }

def run (w : World) (events : List Event) : World := events.foldl after w

end World

/-- Everything that the files have been. -/
def filesSeen (s : FileSystem) (events : List Event) : List FileSystem :=
  s :: events.filterMap fun
    | .files s' => some s'
    | _ => none

/-- The files after some events. -/
def filesAfter : FileSystem → List Event → FileSystem
  | s, [] => s
  | _, .files s :: rest => filesAfter s rest
  | s, .library _ :: rest | s, .invalidate _ :: rest => filesAfter s rest

/-- The directory is not forgotten, and whenever it is asked for its `qmldir` file has this stamp. -/
def Undisturbed (directory : Path) (stamp : FileStamp) : FileSystem → List Event → Prop
  | _, [] => True
  | _, .files s :: rest => Undisturbed directory stamp s rest
  | s, .library d :: rest =>
    (d.clean = directory → s.stamp directory.qmldir = stamp) ∧ Undisturbed directory stamp s rest
  | s, .invalidate d :: rest => d.clean ≠ directory ∧ Undisturbed directory stamp s rest

/-- These are the files at a time when the directory was asked for, and nothing after it has made the library
that was found in it a wrong one, as far as that can be seen from its `qmldir` file. -/
def ReadAt (s : FileSystem) (events : List Event) (directory : Path) (s' : FileSystem) : Prop :=
  ∃ before d after, events = before ++ .library d :: after ∧ d.clean = directory ∧ s' = filesAfter s before ∧
    Undisturbed directory (s'.stamp directory.qmldir) s' after

variable {s s' : FileSystem} {directory : Path} {events : List Event} {e : Event}

section history

@[simp] lemma run_concat (w : World) (events : List Event) (e : Event) :
    w.run (events ++ [e]) = (w.run events).after e := by
  simp [World.run]

lemma files_run (w : World) (events : List Event) : (w.run events).files = filesAfter w.files events := by
  induction events generalizing w with
  | nil => rfl
  | cons e rest ih => cases e <;> exact ih _

lemma filesAfter_append (s : FileSystem) (events events' : List Event) :
    filesAfter s (events ++ events') = filesAfter (filesAfter s events) events' := by
  induction events generalizing s with
  | nil => rfl
  | cons e rest ih => cases e <;> exact ih _

lemma filesAfter_mem (s : FileSystem) (events : List Event) : filesAfter s events ∈ filesSeen s events := by
  induction events generalizing s with
  | nil => exact .head _
  | cons e rest ih =>
    cases e with
    | files s' => exact .tail _ (ih s')
    | library d => exact ih s
    | invalidate d => exact ih s

lemma ReadAt.mem (h : ReadAt s events directory s') : s' ∈ filesSeen s events := by
  obtain ⟨before,d,after,rfl,-,rfl,-⟩ := h
  have hmem := filesAfter_mem s before
  unfold filesSeen at hmem ⊢
  rw [List.filterMap_append,← List.cons_append,List.mem_append]
  exact .inl hmem

lemma undisturbed_concat {stamp : FileStamp} : Undisturbed directory stamp s (events ++ [e]) ↔
    Undisturbed directory stamp s events ∧ Undisturbed directory stamp (filesAfter s events) [e] := by
  induction events generalizing s with
  | nil =>
    simp only [List.nil_append,Undisturbed,true_and]
    rfl
  | cons first rest ih =>
    cases first with
    | files s' => exact ih
    | library d => simp only [List.cons_append,Undisturbed,filesAfter,ih,and_assoc]
    | invalidate d => simp only [List.cons_append,Undisturbed,filesAfter,ih,and_assoc]

/-- A reading lasts over an event that does not disturb it. -/
lemma ReadAt.concat (h : ReadAt s events directory s')
    (he : Undisturbed directory (s'.stamp directory.qmldir) (filesAfter s events) [e]) :
    ReadAt s (events ++ [e]) directory s' := by
  obtain ⟨before,d,after,rfl,hd,hs,hafter⟩ := h
  refine ⟨before,d,after ++ [e],by simp,hd,hs,undisturbed_concat.mpr ⟨hafter,?_⟩⟩
  have hfiles : filesAfter s (before ++ .library d :: after) = filesAfter s' after := by
    rw [filesAfter_append,hs,filesAfter]
  rwa [← hfiles]

end history

section step

variable {r : LibraryRegistry} {known : ReadLibrary}

/-- The store answers with what it has under the same stamp, or with what it reads now and keeps. -/
lemma library_cases (r : LibraryRegistry) (s : FileSystem) (d : Path) :
    (∃ known, r.libraries.get? d.clean = some known ∧ known.stamp = s.stamp d.clean.qmldir ∧
      r.library s d = (known.library,r)) ∨
    r.library s d = (.ofDirectory s d.clean,
      ⟨r.libraries.insert d.clean ⟨.ofDirectory s d.clean,s.stamp d.clean.qmldir⟩⟩) := by
  have hqmldir : d.clean.join ⟨Qmldir.fileName⟩ = d.clean.qmldir := rfl
  unfold library
  simp only [hqmldir]
  cases h : (r.libraries.get? d.clean).filter (·.stamp = s.stamp d.clean.qmldir) with
  | none => exact .inr rfl
  | some known =>
    obtain ⟨hknown,hstamp⟩ := Option.filter_eq_some_iff.mp h
    exact .inl ⟨known,hknown,by simpa using hstamp,rfl⟩

end step

/-- Every library that is kept was read at a time that nothing has happened to it since. -/
lemma kept (s : FileSystem) (events : List Event) (directory : Path) {known : ReadLibrary}
    (h : ((World.mk s {}).run events).registry.libraries.get? directory = some known) :
    ∃ s', ReadAt s events directory s' ∧ known.stamp = s'.stamp directory.qmldir ∧
      known.library = .ofDirectory s' directory := by
  induction events using List.reverseRecOn with
  | nil => simp [World.run,FiniteMap.get?] at h
  | append_singleton events e ih =>
    rw [run_concat] at h
    cases e with
    | files s' =>
      obtain ⟨s'',hread,hkept⟩ := ih h
      exact ⟨s'',hread.concat trivial,hkept⟩
    | library d =>
      simp only [World.after] at h
      have hfiles : ((World.mk s {}).run events).files = filesAfter s events := files_run _ events
      rw [hfiles] at h
      obtain ⟨asked,hasked,hstamp,heq⟩ | heq :=
        library_cases ((World.mk s {}).run events).registry (filesAfter s events) d
      · rw [heq] at h
        obtain ⟨s'',hread,hkept,hlibrary⟩ := ih h
        refine ⟨s'',hread.concat ⟨?_,trivial⟩,hkept,hlibrary⟩
        rintro rfl
        rw [← hkept,← hstamp]
        rw [hasked] at h
        cases h
        rfl
      · rw [heq,FiniteMap.get?_insert] at h
        split at h
        · rename_i hd
          cases h
          exact ⟨_,⟨events,d,[],rfl,hd.symm,rfl,trivial⟩,by rw [hd],by rw [hd]⟩
        · rename_i hd
          obtain ⟨s'',hread,hkept⟩ := ih h
          exact ⟨s'',hread.concat ⟨fun h => absurd h.symm hd,trivial⟩,hkept⟩
    | invalidate d =>
      simp only [World.after,invalidate,FiniteMap.get?_erase] at h
      split at h
      · cases h
      · rename_i hd
        obtain ⟨s'',hread,hkept⟩ := ih h
        exact ⟨s'',hread.concat ⟨fun h => absurd h.symm hd,trivial⟩,hkept⟩

section late

end late

end LibraryRegistry

end QmlCodeModel
