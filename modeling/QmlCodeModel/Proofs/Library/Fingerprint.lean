import Mathlib.Tactic.Common
import QmlCodeModel.Library.Basic
import QmlCodeModel.Proofs.Library.Qmldir
import QmlCodeModel.Proofs.Text.Bytes
import QmlCodeModel.Proofs.Token.Stream

/-! What the fingerprint of a library tells. The bytes that it is taken of can be read back, so as long as no two of
them hash alike, libraries with one fingerprint agree in all that is written there. That is everything but the
module; a version without a number is written as one with the greatest number, and no path as an empty one. -/
namespace QmlCodeModel

/-! What is written so that it can be read back. -/

/-- What these bytes are written for can be told from them, whatever comes behind, as far as the view shows it. -/
def Telling {α β : Type} (p : α → Prop) (bytes : α → List UInt8) (view : α → β) : Prop :=
  ∀ a b, p a → p b → ∀ r s, bytes a ++ r = bytes b ++ s → view a = view b ∧ r = s

/-- Bytes of one length can be cut off. -/
lemma Telling.of_length {α β : Type} {p : α → Prop} {bytes : α → List UInt8} {view : α → β} {n : Nat}
    (hlength : ∀ a, (bytes a).length = n) (h : ∀ a b, p a → p b → bytes a = bytes b → view a = view b) :
    Telling p bytes view := by
  intro a b ha hb r s heq
  obtain ⟨hbytes,hrest⟩ := List.append_inj heq ((hlength a).trans (hlength b).symm)
  exact ⟨h a b ha hb hbytes,hrest⟩

lemma length_bytesOfNat (count n : Nat) : (bytesOfNat count n).length = count := by
  induction count generalizing n with
  | zero => rfl
  | succ count ih => rw [bytesOfNat,List.length_cons,ih]

lemma bytesOfNat_inj {count n m : Nat} (hn : n < Nat.pow 256 count) (hm : m < Nat.pow 256 count)
    (h : bytesOfNat count n = bytesOfNat count m) : n = m := by
  induction count generalizing n m with
  | zero =>
    change n < 1 at hn
    change m < 1 at hm
    omega
  | succ count ih =>
    obtain ⟨hbyte,hbytes⟩ := List.cons_eq_cons.mp h
    have hrest : n / 256 = m / 256 := by
      refine ih (Nat.div_lt_of_lt_mul ?_) (Nat.div_lt_of_lt_mul ?_) hbytes
      · rw [Nat.mul_comm]
        exact hn
      · rw [Nat.mul_comm]
        exact hm
    have hlow : n % 256 = m % 256 := by
      have := congrArg UInt8.toNat hbyte
      rwa [UInt8.toNat_ofNat',UInt8.toNat_ofNat'] at this
    omega

/-- A text whose length can be written in eight bytes. -/
def Fits (text : String) : Prop := byteWidth text.toList < 0x10000000000000000

instance (text : String) : Decidable (Fits text) := inferInstanceAs (Decidable (_ < _))

/-- A list whose length can be written in eight bytes, of items that can be written. -/
def ListFits {α : Type} (p : α → Prop) (xs : List α) : Prop :=
  xs.length < 0x10000000000000000 ∧ ∀ x ∈ xs, p x

lemma ListFits.nil {α : Type} {p : α → Prop} : ListFits p [] := ⟨Nat.succ_pos _,by simp⟩

namespace Fingerprint

lemma telling_lengthBytes : Telling (· < 0x10000000000000000) lengthBytes id :=
  .of_length (length_bytesOfNat 8) fun _ _ hn hm h => @bytesOfNat_inj 8 _ _ hn hm h

lemma telling_numberBytes :
    Telling (fun n : Option Nat => ∀ k ∈ n, k < 0x100000000) numberBytes fun n => n.getD 0xffffffff := by
  refine .of_length (fun n => length_bytesOfNat 4 _) fun n m hn hm h => bytesOfNat_inj ?_ ?_ h
  · cases n with
    | none => decide
    | some k => exact hn k rfl
  · cases m with
    | none => decide
    | some k => exact hm k rfl

lemma telling_textBytes : Telling Fits textBytes id := by
  intro text other ht ho r s h
  simp only [textBytes,List.append_assoc] at h
  obtain ⟨hlength,h⟩ := telling_lengthBytes _ _ (by rwa [length_toUTF8]) (by rwa [length_toUTF8]) _ _ h
  obtain ⟨hbytes,hrest⟩ := List.append_inj h hlength
  exact ⟨toUTF8_toList_inj hbytes,hrest⟩

lemma telling_listBytes {α β : Type} {p : α → Prop} {bytes : α → List UInt8} {view : α → β}
    (h : Telling p bytes view) : Telling (ListFits p) (listBytes bytes) (List.map view) := by
  -- once the lengths are known to agree, by induction on the two lists
  have hitems : ∀ xs ys : List α, xs.length = ys.length → (∀ x ∈ xs, p x) → (∀ y ∈ ys, p y) → ∀ r s,
      xs.flatMap bytes ++ r = ys.flatMap bytes ++ s → xs.map view = ys.map view ∧ r = s := by
    intro xs
    induction xs with
    | nil =>
      intro ys hlength _ _ r s heq
      obtain rfl : ys = [] := List.length_eq_zero_iff.mp hlength.symm
      exact ⟨rfl,heq⟩
    | cons x xs ih =>
      intro ys hlength hxs hys r s heq
      cases ys with
      | nil => cases hlength
      | cons y ys =>
        obtain ⟨hx,hxs⟩ := List.forall_mem_cons.mp hxs
        obtain ⟨hy,hys⟩ := List.forall_mem_cons.mp hys
        rw [List.flatMap_cons,List.flatMap_cons,List.append_assoc,List.append_assoc] at heq
        obtain ⟨hview,heq⟩ := h x y hx hy _ _ heq
        obtain ⟨hviews,hrest⟩ := ih ys (Nat.succ.inj hlength) hxs hys r s heq
        exact ⟨by rw [List.map_cons,List.map_cons,hview,hviews],hrest⟩
  rintro xs ys ⟨hx,hxs⟩ ⟨hy,hys⟩ r s heq
  rw [listBytes,listBytes,List.append_assoc,List.append_assoc] at heq
  obtain ⟨hlength,heq⟩ := telling_lengthBytes _ _ hx hy _ _ heq
  exact hitems xs ys hlength hxs hys r s heq

lemma telling_bytes : Telling (fun _ : Fingerprint => True) (·.bytes.toList) id := by
  refine .of_length (fun f => f.bytes.length_toList) ?_
  rintro ⟨f⟩ ⟨g⟩ _ _ h
  exact congrArg Fingerprint.mk (Vector.toList_inj.mp h)

/-- Where the bytes of an item show its view only, those of a list show the views of its items only. -/
lemma listBytes_congr {α : Type} {bytes : α → List UInt8} (view : α → α) (h : ∀ a, bytes (view a) = bytes a)
    {xs ys : List α} (hview : xs.map view = ys.map view) : listBytes bytes xs = listBytes bytes ys := by
  have hmap (xs : List α) : listBytes bytes (xs.map view) = listBytes bytes xs := by
    rw [listBytes,listBytes,List.length_map,List.flatMap_map,funext h]
  rw [← hmap xs,hview,hmap]

/-! The order of fingerprints. -/

variable {f g k : Fingerprint}

lemma le_trans (hfg : f.le g) (hgk : g.le k) : f.le k := Std.TransCmp.isLE_trans hfg hgk

lemma le_total (f g : Fingerprint) : f.le g || g.le f := by
  unfold le
  have hswap := @Std.OrientedCmp.eq_swap _ (List.compareLex compare) _ (g.bytes.toList.map UInt8.toNat)
    (f.bytes.toList.map UInt8.toNat)
  rw [hswap]
  cases List.compareLex compare (f.bytes.toList.map UInt8.toNat) (g.bytes.toList.map UInt8.toNat) <;> rfl

lemma le_antisymm (hfg : f.le g) (hgf : g.le f) : f = g := by
  have hbytes := Std.LawfulEqCmp.eq_of_compare (Std.OrientedCmp.isLE_antisymm hfg hgf)
  have htoList := (List.map_inj_right fun _ _ => UInt8.toNat_inj.mp).mp hbytes
  cases f
  cases g
  exact congrArg Fingerprint.mk (Vector.toList_inj.mp htoList)

/-- Fingerprints in order are the same list exactly if they are the same up to their order. -/
lemma mergeSort_eq_iff {fs gs : List Fingerprint} : fs.mergeSort le = gs.mergeSort le ↔ fs.Perm gs := by
  have hf := List.mergeSort_perm fs le
  have hg := List.mergeSort_perm gs le
  constructor
  · intro h
    exact hf.symm.trans (h ▸ hg)
  · intro h
    have hsorted := @List.pairwise_mergeSort _ le (fun _ _ _ => le_trans) le_total
    exact List.Perm.eq_of_pairwise (fun _ _ _ _ => le_antisymm) (hsorted fs) (hsorted gs)
      (hf.trans (h.trans hg.symm))

end Fingerprint

/-! Libraries that can be written. -/

/-- Numbers of four bytes, where there are any. -/
def ComponentVersion.Fits (v : ComponentVersion) : Prop :=
  (∀ n ∈ v.major, n < 0x100000000) ∧ ∀ n ∈ v.minor, n < 0x100000000

structure Component.Storable (c : Component) : Prop where
  fileName : Fits c.fileName
  version : c.version.Fits
  typeName : Fits c.typeName

/-- What the bytes of a component tell: a number that is missing is taken for the greatest one. -/
def Component.told (c : Component) : Component :=
  { c with version := ⟨c.version.major.getD 0xffffffff, c.version.minor.getD 0xffffffff⟩ }

/-- What the bytes of a plugin tell: a path that is missing is taken for the empty one. -/
def Plugin.told (p : Plugin) : Plugin := { p with path := p.path.getD "" }

structure Plugin.Storable (p : Plugin) : Prop where
  path : Fits (p.path.getD "")
  name : Fits p.name

lemma Component.flags_inj : ∀ singleton internal singleton' internal' : Bool,
    ((if singleton then 1 else 0) ||| (if internal then 2 else 0) : UInt8) =
      (if singleton' then 1 else 0) ||| (if internal' then 2 else 0) →
    singleton = singleton' ∧ internal = internal' := by
  decide

lemma Component.telling_bytes : Telling Storable bytes told := by
  rintro ⟨typeName,fileName,⟨major,minor⟩,singleton,internal⟩ ⟨typeName',fileName',⟨major',minor'⟩,singleton',internal'⟩
    hc hd r s h
  simp only [bytes,List.append_assoc] at h
  obtain ⟨hfile,h⟩ := Fingerprint.telling_textBytes _ _ hc.fileName hd.fileName _ _ h
  obtain ⟨hmajor,h⟩ := Fingerprint.telling_numberBytes _ _ hc.version.1 hd.version.1 _ _ h
  obtain ⟨hminor,h⟩ := Fingerprint.telling_numberBytes _ _ hc.version.2 hd.version.2 _ _ h
  obtain ⟨htype,h⟩ := Fingerprint.telling_textBytes _ _ hc.typeName hd.typeName _ _ h
  obtain ⟨hflags,hrest⟩ := List.cons_eq_cons.mp h
  obtain ⟨rfl,rfl⟩ := flags_inj _ _ _ _ hflags
  obtain rfl : fileName = fileName' := hfile
  obtain rfl : typeName = typeName' := htype
  simp only at hmajor hminor
  exact ⟨by simp only [told,hmajor,hminor],hrest⟩

lemma Plugin.telling_bytes : Telling Storable bytes told := by
  rintro ⟨name,path⟩ ⟨name',path'⟩ hp hq r s h
  simp only [bytes,List.append_assoc] at h
  obtain ⟨hpath,h⟩ := Fingerprint.telling_textBytes _ _ hp.path hq.path _ _ h
  obtain ⟨hname,hrest⟩ := Fingerprint.telling_textBytes _ _ hp.name hq.name _ _ h
  simp only [id_eq] at hpath hname
  exact ⟨by simp only [told,hpath,hname],hrest⟩

lemma LibraryStatus.code_inj {s t : LibraryStatus} (h : s.code = t.code) : s = t := by
  cases s <;> cases t <;> first | rfl | cases h

lemma DumpStatus.code_inj {s t : DumpStatus} (h : s.code = t.code) : s = t := by
  cases s <;> cases t <;> first | rfl | cases h

namespace Library

/-- A library whose numbers and lengths can be written in the bytes that there are for them. -/
structure Storable (l : Library) : Prop where
  components : ListFits Component.Storable l.components
  plugins : ListFits Plugin.Storable l.plugins
  typeInfos : ListFits Fits l.typeInfos
  typeFingerprints : l.typeFingerprints.length < 0x10000000000000000
  dumpError : Fits l.dumpError

/-- The libraries agree in all but the module, and in the type fingerprints up to their order. A missing number of a
version counts as the greatest number, and a missing path of a plugin as the empty one. -/
structure Alike (l m : Library) : Prop where
  status : l.status = m.status
  components : l.components.map Component.told = m.components.map Component.told
  plugins : l.plugins.map Plugin.told = m.plugins.map Plugin.told
  typeInfos : l.typeInfos = m.typeInfos
  typeFingerprints : l.typeFingerprints.Perm m.typeFingerprints
  dumpStatus : l.dumpStatus = m.dumpStatus
  dumpError : l.dumpError = m.dumpError

variable {l m : Library}

lemma Alike.bytes_eq (h : l.Alike m) : l.bytes = m.bytes := by
  rw [bytes,bytes,h.status,Fingerprint.listBytes_congr Component.told (fun _ => rfl) h.components,
    Fingerprint.listBytes_congr Plugin.told (fun _ => rfl) h.plugins,h.typeInfos,
    Fingerprint.mergeSort_eq_iff.mpr h.typeFingerprints,h.dumpStatus,h.dumpError]

/-- The parts of the bytes are read back one after the other. -/
lemma alike_of_bytes_eq (hl : l.Storable) (hm : m.Storable) (h : l.bytes = m.bytes) : l.Alike m := by
  have hsize (l : Library) : (l.typeFingerprints.mergeSort Fingerprint.le).length = l.typeFingerprints.length :=
    (List.mergeSort_perm _ _).length_eq
  simp only [bytes,List.append_assoc,List.cons_append] at h
  obtain ⟨hstatus,h⟩ := List.cons_eq_cons.mp h
  obtain ⟨hcomponents,h⟩ := Fingerprint.telling_listBytes Component.telling_bytes _ _ hl.components hm.components _ _ h
  obtain ⟨hplugins,h⟩ := Fingerprint.telling_listBytes Plugin.telling_bytes _ _ hl.plugins hm.plugins _ _ h
  obtain ⟨htypes,h⟩ := Fingerprint.telling_listBytes Fingerprint.telling_textBytes _ _ hl.typeInfos hm.typeInfos _ _ h
  obtain ⟨hprints,h⟩ := Fingerprint.telling_listBytes Fingerprint.telling_bytes _ _
    ⟨(hsize l).symm ▸ hl.typeFingerprints,fun _ _ => trivial⟩
    ⟨(hsize m).symm ▸ hm.typeFingerprints,fun _ _ => trivial⟩ _ _ h
  obtain ⟨hdump,h⟩ := List.cons_eq_cons.mp h
  have herror := Fingerprint.telling_textBytes _ _ hl.dumpError hm.dumpError [] [] (by simpa using h)
  rw [List.map_id,List.map_id] at htypes hprints
  exact ⟨LibraryStatus.code_inj hstatus,hcomponents,hplugins,htypes,Fingerprint.mergeSort_eq_iff.mp hprints,
    DumpStatus.code_inj hdump,herror.1⟩

end Library

/-! Files that list a library are short enough for that. -/

lemma byteWidth_splitOnce_le (separator : Char) (text : List Char) :
    byteWidth (splitOnce separator text).1 ≤ byteWidth text := by
  unfold splitOnce
  split
  · rw [← List.takeWhile_append_dropWhile (p := (· != separator)) (l := text),byteWidth_append]
    simp
  · exact Nat.le_refl _

/-- The lines of a text are no longer together than the text. -/
lemma byteWidth_splitOnChar_le (separator : Char) (text : List Char) :
    byteWidth (splitOnChar separator text).flatten ≤ byteWidth text := by
  induction text with
  | nil => simp [splitOnChar]
  | cons c rest ih =>
    rw [splitOnChar,byteWidth_cons]
    split
    · rw [List.flatten_cons,List.nil_append]
      omega
    · split
      · rename_i part parts hparts
        rw [hparts,List.flatten_cons] at ih
        rw [List.flatten_cons,List.cons_append,byteWidth_cons]
        omega
      · simp

/-- A word is no longer than the text that it stands in. By induction on the text, beside the word that is not yet
complete. -/
lemma byteWidth_le_of_mem_words {text word : List Char} (h : word ∈ words text) : byteWidth word ≤ byteWidth text := by
  unfold words at h
  generalize hstep : (fun c (state : List Char × List (List Char)) => _) = step at h
  have hfold : ∀ cs : List Char, byteWidth (cs.foldr step ([],[])).1 ≤ byteWidth cs ∧
      ∀ w ∈ (cs.foldr step ([],[])).2, byteWidth w ≤ byteWidth cs := by
    intro cs
    induction cs with
    | nil => simp
    | cons c cs ih =>
      rw [List.foldr_cons,byteWidth_cons]
      generalize cs.foldr step ([],[]) = state at ih
      obtain ⟨hword,hrest⟩ := ih
      have hrest' : ∀ w ∈ state.2, byteWidth w ≤ c.utf8Size + byteWidth cs := fun w hw => by
        have := hrest w hw
        omega
      simp only [← hstep]
      split
      · refine ⟨Nat.zero_le _,?_⟩
        split
        · exact hrest'
        · exact List.forall_mem_cons.mpr ⟨by omega,hrest'⟩
      · exact ⟨by rw [byteWidth_cons]; omega,hrest'⟩
  obtain ⟨hword,hrest⟩ := hfold text
  simp only at h
  split at h
  · exact hrest word h
  · rcases List.mem_cons.mp h with rfl | h
    · exact hword
    · exact hrest word h

lemma word32?_lt {cs : List Char} {radix n : Nat} (h : word32? radix cs = some n) : n < 0x100000000 := by
  have hread (digits : List Char)
      (h : (if digits.isEmpty then none else (digitsValue? radix digits).filter (· < 1 <<< 32)) = some n) :
      n < 0x100000000 := by
    split at h
    · cases h
    · simpa using (Option.filter_eq_some_iff.mp h).2
  exact hread _ h

lemma ComponentVersion.ofNumbers?_fits {text : String} {v : ComponentVersion} (h : ofNumbers? text = some v) :
    v.Fits := by
  unfold ofNumbers? at h
  generalize splitOnce '.' text.toList = parts at h
  obtain ⟨cs,-,h⟩ := Option.bind_eq_some_iff.mp h
  split at h
  · obtain ⟨major,hmajor,h⟩ := Option.bind_eq_some_iff.mp h
    obtain ⟨minor,hminor,h⟩ := Option.bind_eq_some_iff.mp h
    obtain rfl := Option.some.inj h
    exact ⟨by rintro n ⟨⟩; exact word32?_lt hmajor,by rintro n ⟨⟩; exact word32?_lt hminor⟩
  · cases h

namespace QmldirRecord

/-- A record that says something of a library that can be written. -/
def Storable : QmldirRecord → Prop
  | .plugin p => p.Storable
  | .typeInfo file => Fits file
  | .component c => c.Storable
  | _ => True

lemma versioned_storable {typeName version fileName : String} {singleton : Bool} {r : QmldirRecord}
    (h : versioned typeName version fileName singleton = .ok r) (htype : Fits typeName) (hfile : Fits fileName) :
    r.Storable := by
  unfold versioned at h
  split at h
  · rename_i v hv
    cases h
    exact ⟨hfile,ComponentVersion.ofNumbers?_fits hv,htype⟩
  · cases h

lemma ofWords?_storable {ws : List String} {r : QmldirRecord} (h : ofWords? ws = some (.ok r))
    (hfits : ∀ w ∈ ws, Fits w) : r.Storable := by
  have hnone : ComponentVersion.Fits {} := ⟨by simp,by simp⟩
  have hempty : Fits "" := by decide
  unfold ofWords? at h
  split at h <;> simp only [List.forall_mem_cons,List.not_mem_nil,false_implies,implies_true,and_true] at hfits
  · cases h
  · cases h
    trivial
  · cases h
    exact ⟨hempty,hfits.2⟩
  · cases h
    exact ⟨hfits.2.2,hfits.2.1⟩
  · cases h
    trivial
  · cases h
    exact hfits.2
  · cases h
    trivial
  · have h := Option.some.inj h
    split at h <;> cases h
    trivial
  · cases h
    exact ⟨hfits.2.2,hnone,hfits.2.1⟩
  · exact versioned_storable (Option.some.inj h) hfits.2.1 hfits.2.2.2
  · cases h
    exact ⟨hfits.2.2,hnone,hfits.2.1⟩
  · exact versioned_storable (Option.some.inj h) hfits.1 hfits.2.2
  · have h := Option.some.inj h
    unfold plain at h
    split at h <;> cases h
    exact ⟨hfits.2,hnone,hfits.1⟩
  · cases h

lemma ofLine?_storable {line : List Char} {r : QmldirRecord} (h : ofLine? line = some (.ok r))
    (hfits : byteWidth line < 0x10000000000000000) : r.Storable := by
  refine ofWords?_storable h fun w hw => ?_
  obtain ⟨word,hword,rfl⟩ := List.mem_map.mp hw
  rw [Fits,String.toList_ofList]
  calc byteWidth word ≤ byteWidth (splitOnce '#' line).1 := byteWidth_le_of_mem_words hword
    _ ≤ byteWidth line := byteWidth_splitOnce_le '#' line
    _ < 0x10000000000000000 := hfits

end QmldirRecord

namespace Qmldir

/-- Contents that can be written, with at most so many entries. -/
structure Storable (n : Nat) (q : Qmldir) : Prop where
  components : q.components.length ≤ n ∧ ∀ c ∈ q.components, c.Storable
  plugins : q.plugins.length ≤ n ∧ ∀ p ∈ q.plugins, p.Storable
  typeInfos : q.typeInfos.length ≤ n ∧ ∀ t ∈ q.typeInfos, Fits t

variable {q : Qmldir} {n m : Nat}

lemma Storable.mono (h : q.Storable n) (hle : n ≤ m) : q.Storable m :=
  ⟨⟨Nat.le_trans h.components.1 hle,h.components.2⟩,⟨Nat.le_trans h.plugins.1 hle,h.plugins.2⟩,
    ⟨Nat.le_trans h.typeInfos.1 hle,h.typeInfos.2⟩⟩

lemma Storable.enter (h : q.Storable n) (line : UInt32) {r : QmldirRecord} (hr : r.Storable) :
    (q.enter line r).Storable (n + 1) := by
  have hlater {α : Type} {p : α → Prop} {xs : List α} {x : α} (h : xs.length ≤ n ∧ ∀ y ∈ xs, p y) (hx : p x) :
      (xs ++ [x]).length ≤ n + 1 ∧ ∀ y ∈ xs ++ [x], p y :=
    ⟨by simpa using h.1,List.forall_mem_append.mpr ⟨h.2,List.forall_mem_singleton.mpr hx⟩⟩
  have hmono := h.mono (Nat.le_succ n)
  cases r with
  | module uri =>
    rw [Qmldir.enter]
    split <;> exact ⟨hmono.components,hmono.plugins,hmono.typeInfos⟩
  | plugin p => exact ⟨hmono.components,hlater h.plugins hr,hmono.typeInfos⟩
  | typeInfo file => exact ⟨hmono.components,hmono.plugins,hlater h.typeInfos hr⟩
  | component c => exact ⟨hlater h.components hr,hmono.plugins,hmono.typeInfos⟩
  | className _ | designerSupported | depends _ _ => exact ⟨hmono.components,hmono.plugins,hmono.typeInfos⟩

lemma Storable.enterLine (h : q.Storable n) (line : UInt32) {text : List Char}
    (hfits : byteWidth text < 0x10000000000000000) : (q.enterLine line text).Storable (n + byteWidth text) := by
  unfold Qmldir.enterLine
  split
  · exact h.mono (Nat.le_add_right _ _)
  · rename_i r hr
    have hpos : 0 < byteWidth text := by
      refine byteWidth_pos fun hnil => ?_
      rw [hnil] at hr
      cases hr
    exact (h.enter line (QmldirRecord.ofLine?_storable hr hfits)).mono (by omega)
  · have hmono := h.mono (Nat.le_add_right n (byteWidth text))
    exact ⟨hmono.components,hmono.plugins,hmono.typeInfos⟩

/-- What a file says can be written, and is not more than the file is long. By induction on the lines. -/
lemma storable_parse {source : String} (hsource : Fits source) : (parse source).Storable (byteWidth source.toList) := by
  have hlines : ∀ (lines : List (List Char)) (q : Qmldir) (k n : Nat), q.Storable n →
      byteWidth lines.flatten < 0x10000000000000000 →
      ((lines.zipIdx k).foldl (fun q entry => q.enterLine (.ofNat entry.2 + 1) entry.1) q).Storable
        (n + byteWidth lines.flatten) := by
    intro lines
    induction lines with
    | nil => exact fun q k n h _ => h
    | cons text lines ih =>
      intro q k n h hsum
      rw [List.flatten_cons,byteWidth_append] at hsum ⊢
      rw [List.zipIdx_cons,List.foldl_cons,← Nat.add_assoc]
      exact ih _ _ _ (h.enterLine _ (by omega)) (by omega)
  have hsum := byteWidth_splitOnChar_le '\n' source.toList
  have hempty : Storable 0 {} := ⟨by simp,by simp,by simp⟩
  exact (hlines _ {} 0 0 hempty (Nat.lt_of_le_of_lt hsum hsource)).mono (by omega)

end Qmldir

/-! Libraries and what their fingerprints tell. -/

/-- A library with the fingerprint that was last taken of it. -/
structure StampedLibrary where
  library : Library
  stamp : Fingerprint

namespace StampedLibrary

/-- Takes the fingerprint anew. -/
def update (s : StampedLibrary) : StampedLibrary := { s with stamp := s.library.fingerprint }

def new (status : LibraryStatus) : StampedLibrary := update ⟨{ status },.ofBytes []⟩

def ofQmldir (q : Qmldir) : StampedLibrary := update ⟨.ofQmldir q,(new .found).stamp⟩

def setComponents (s : StampedLibrary) (components : List Component) : StampedLibrary :=
  update { s with library := { s.library with components } }

def setPlugins (s : StampedLibrary) (plugins : List Plugin) : StampedLibrary :=
  update { s with library := { s.library with plugins } }

def setTypeInfos (s : StampedLibrary) (typeInfos : List String) : StampedLibrary :=
  update { s with library := { s.library with typeInfos } }

def setTypeFingerprints (s : StampedLibrary) (typeFingerprints : List Fingerprint) : StampedLibrary :=
  update { s with library := { s.library with typeFingerprints } }

def setDump (s : StampedLibrary) (dumpStatus : DumpStatus) (dumpError : String) : StampedLibrary :=
  update { s with library := { s.library with dumpStatus, dumpError } }

/-- What comes of a bare status or of a file that lists a library, by setting any parts of it. Texts and lists have
the lengths, and versions the numbers, that there is room for. -/
inductive Reached : StampedLibrary → Prop
  | new (status : LibraryStatus) : Reached (.new status)
  | ofQmldir {source : String} (h : Fits source) : Reached (.ofQmldir (.parse source))
  | setComponents {s : StampedLibrary} {components : List Component} (h : s.Reached)
      (hnew : ListFits Component.Storable components) : Reached (s.setComponents components)
  | setPlugins {s : StampedLibrary} {plugins : List Plugin} (h : s.Reached)
      (hnew : ListFits Plugin.Storable plugins) : Reached (s.setPlugins plugins)
  | setTypeInfos {s : StampedLibrary} {typeInfos : List String} (h : s.Reached)
      (hnew : ListFits Fits typeInfos) : Reached (s.setTypeInfos typeInfos)
  | setTypeFingerprints {s : StampedLibrary} {prints : List Fingerprint} (h : s.Reached)
      (hnew : prints.length < 0x10000000000000000) : Reached (s.setTypeFingerprints prints)
  | setDump {s : StampedLibrary} {status : DumpStatus} {error : String} (h : s.Reached) (hnew : Fits error) :
      Reached (s.setDump status error)

variable {s t : StampedLibrary}

/-- The fingerprint is up to date. -/
lemma Reached.stamp_eq (h : s.Reached) : s.stamp = s.library.fingerprint := by
  cases h <;> rfl

lemma Reached.storable (h : s.Reached) : s.library.Storable := by
  have hempty : Fits "" := by decide
  induction h with
  | new status => exact ⟨.nil,.nil,.nil,Nat.succ_pos _,hempty⟩
  | @ofQmldir source h =>
    have hq := Qmldir.storable_parse h
    exact ⟨⟨Nat.lt_of_le_of_lt hq.components.1 h,hq.components.2⟩,⟨Nat.lt_of_le_of_lt hq.plugins.1 h,hq.plugins.2⟩,
      ⟨Nat.lt_of_le_of_lt hq.typeInfos.1 h,hq.typeInfos.2⟩,Nat.succ_pos _,hempty⟩
  | setComponents h hnew ih => exact { ih with components := hnew }
  | setPlugins h hnew ih => exact { ih with plugins := hnew }
  | setTypeInfos h hnew ih => exact { ih with typeInfos := hnew }
  | setTypeFingerprints h hnew ih => exact { ih with typeFingerprints := hnew }
  | setDump h hnew ih => exact { ih with dumpError := hnew }

/-- As long as the bytes of two libraries do not hash alike without being the same, the libraries have one
fingerprint exactly if they agree in all that a fingerprint tells: everything but the module, up to the order of the
type fingerprints, with a missing number of a version taken for the greatest one and a missing path for the empty
one. -/
theorem stamp_eq_iff_alike (hs : s.Reached) (ht : t.Reached)
    (hhash : Blake3.hash s.library.bytes = Blake3.hash t.library.bytes → s.library.bytes = t.library.bytes) :
    s.stamp = t.stamp ↔ s.library.Alike t.library := by
  rw [hs.stamp_eq,ht.stamp_eq]
  constructor
  · intro h
    exact Library.alike_of_bytes_eq hs.storable ht.storable (hhash (congrArg Fingerprint.bytes h))
  · intro h
    rw [Library.fingerprint,Library.fingerprint,h.bytes_eq]

/-- A library read from a file, and one that is put together with the greatest version, an empty path and the type
fingerprints in another order. -/
theorem stamp_eq_iff_alike_set :
    let a : Fingerprint := ⟨.replicate 32 0⟩
    let b : Fingerprint := ⟨.replicate 32 1⟩
    let s := (ofQmldir (.parse "A a.qml\nplugin p")).setTypeFingerprints [a, b]
    let t := (((new .found).setComponents
      [{ typeName := "A", fileName := "a.qml", version := ⟨some 0xffffffff, some 0xffffffff⟩ }]).setPlugins
        [⟨"p", some ""⟩]).setTypeFingerprints [b, a]
    s.Reached ∧ t.Reached ∧ s.stamp = t.stamp := by
  intro a b s t
  have hs : s.Reached := .setTypeFingerprints (.ofQmldir (by decide)) (by decide)
  have ht : t.Reached := by
    refine .setTypeFingerprints (.setPlugins (.setComponents (.new .found) ⟨by decide,?_⟩) ⟨by decide,?_⟩) (by decide)
    · rintro c hc
      obtain rfl := List.mem_singleton.mp hc
      exact ⟨by decide,⟨by decide,by decide⟩,by decide⟩
    · rintro p hp
      obtain rfl := List.mem_singleton.mp hp
      exact ⟨by decide,by decide⟩
  have halike : s.library.Alike t.library := by
    refine ⟨rfl,?_,?_,?_,List.Perm.swap b a [],rfl,rfl⟩
    · decide +kernel
    · decide +kernel
    · decide +kernel
  exact ⟨hs,ht,(stamp_eq_iff_alike hs ht fun _ => halike.bytes_eq).mpr halike⟩

/-- Files that differ in their module only. -/
theorem stamp_misses_module :
    let s := ofQmldir (.parse "module A")
    let t := ofQmldir (.parse "module B")
    s.Reached ∧ t.Reached ∧ s.stamp = t.stamp ∧ s.library.module? = some "A" ∧ t.library.module? = some "B" := by
  intro s t
  have hs : Qmldir.parse "module A" = { module? := some "A" } := by decide +kernel
  have ht : Qmldir.parse "module B" = { module? := some "B" } := by decide +kernel
  refine ⟨.ofQmldir (by decide),.ofQmldir (by decide),?_,?_,?_⟩
  · simp only [s,t,hs,ht]
    rfl
  · simp only [s,hs]
    rfl
  · simp only [t,ht]
    rfl

end StampedLibrary

end QmlCodeModel
