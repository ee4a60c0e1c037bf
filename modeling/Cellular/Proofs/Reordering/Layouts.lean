import Cellular.Config.Basic
import Cellular.Proofs.Machine.Locality
import Mathlib.Data.List.Perm.Basic

/-!
# Layouts of the same fields

State fields that are declared in another order get other places.  What a name stands for does not
change: it has the same kind and the same number of bits.

* `Layout.Alike` relates two layouts of the same fields; `Layout.pack_perm` packs declared fields in
  another order.
* `Layout.SameValues` relates two records that hold the same values under the two layouts; reading
  and writing by name respect it.

A permutation of the fields moves all of them, and the records of both layouts have nothing in
common as bytes.  What they have in common is a function from names to values.  The laws of packed
fields say how this function changes when a field is written, on either side in the same way: the
field has the new value, cut to the same width, and the others have what they had.  So a store by
name keeps two records in agreement, and nothing about places has to be said again.
-/

namespace Cellular

/-- Where no key is repeated, the entry with a key does not depend on the order of the entries. -/
lemma find?_perm {α κ : Type} [DecidableEq κ] {key : α → κ} {as bs : List α} (h : as.Perm bs)
    (hnodup : (as.map key).Nodup) (k : κ) :
    as.find? (fun a => key a = k) = bs.find? (fun a => key a = k) := by
  induction h with
  | nil => rfl
  | cons a _ ih => simp only [List.find?_cons, ih (List.nodup_cons.mp hnodup).2]
  | swap a b as =>
      have hne : key b ≠ key a := by
        intro heq
        simp [heq] at hnodup
      by_cases hb : key b = k
      · have ha : key a ≠ k := fun ha => hne (hb.trans ha.symm)
        simp [hb, ha]
      · simp [List.find?_cons, hb]
  | trans h₁ _ ih₁ ih₂ => exact (ih₁ hnodup).trans (ih₂ ((h₁.map key).nodup_iff.mp hnodup))

/-- Where no key is repeated, looking a key up does not depend on the order of the entries. -/
lemma lookup_perm {α κ : Type} [DecidableEq κ] {as bs : List (κ × α)} (h : as.Perm bs)
    (hnodup : (as.map Prod.fst).Nodup) (k : κ) : as.lookup k = bs.lookup k := by
  have hfind : ∀ as : List (κ × α), as.lookup k = (as.find? fun a => a.1 = k).map Prod.snd := by
    intro as
    induction as with
    | nil => rfl
    | cons a as ih =>
        obtain ⟨key, v⟩ := a
        by_cases hkey : key = k
        · simp [hkey]
        · simp [List.lookup_cons, hkey, beq_false_of_ne (Ne.symm hkey), ih]
  rw [hfind, hfind, find?_perm h hnodup]

/-! ## Declared fields

The declarations are turned into specifications one by one.  Each is given its number, for errors
only.
-/

namespace StateField

/-- The number of a declared field is in its errors only. -/
lemma spec_index {index : Nat} {f : StateField} {s : FieldSpec} (h : f.spec index = .ok s)
    (index' : Nat) : f.spec index' = .ok s := by
  rw [spec] at h ⊢
  split at h
  · cases h
  · split_ifs at h ⊢
    exact h

/-- Declared fields are read one by one. -/
lemma specs_eq_ok_iff {fs : List StateField} :
    ∀ {index : Nat} {ss : List FieldSpec},
      specs index fs = .ok ss ↔ List.Forall₂ (fun f s => f.spec 0 = .ok s) fs ss := by
  induction fs with
  | nil =>
      intro index ss
      rw [specs, List.forall₂_nil_left_iff, Except.ok.injEq, eq_comm]
  | cons f fs ih =>
      intro index ss
      simp only [specs, bind_eq_ok, pure_eq_ok, List.forall₂_cons_left_iff, ih]
      constructor
      · rintro ⟨s, hs, more, hmore, rfl⟩
        exact ⟨s, more, spec_index hs 0, hmore, rfl⟩
      · rintro ⟨s, more, hs, hmore, rfl⟩
        exact ⟨s, spec_index hs index, more, hmore, rfl⟩

/-- Declared fields are read in any order. -/
lemma specs_perm {fs gs : List StateField} (h : gs.Perm fs) {ss : List FieldSpec}
    (hs : specs 0 fs = .ok ss) : ∃ ts, specs 0 gs = .ok ts ∧ ts.Perm ss := by
  obtain ⟨ts, hts, hperm⟩ := List.perm_comp_forall₂ h (specs_eq_ok_iff.mp hs)
  exact ⟨ts, specs_eq_ok_iff.mpr hts, hperm⟩

end StateField

/-! ## Layouts

Packing succeeds by conditions on the declared fields that do not depend on their order.
-/

/-- What two layouts have in common that give a field other places. -/
def Field.Alike (f g : Field) : Prop := g.kind = f.kind ∧ g.width = f.width

lemma Field.Alike.type_eq {f g : Field} (h : f.Alike g) : g.type = f.type := by
  rw [Field.type, Field.type, h.1]

/-- Two layouts of the same fields. -/
def Layout.Alike (l m : Layout) : Prop :=
  ∀ name, (l.field? name = none ∧ m.field? name = none) ∨
    ∃ f g, l.field? name = some f ∧ m.field? name = some g ∧ f.Alike g

namespace FieldSpec

/-- A field is found by its name wherever it is placed. -/
lemma find?_fieldsFrom (name : String) (specs : List FieldSpec) :
    ∀ c : BitCursor,
      (specs.find? (fun s => s.name = name) = none ∧
        (fieldsFrom c specs).find? (fun f => f.name = name) = none) ∨
      ∃ s f, specs.find? (fun s => s.name = name) = some s ∧
        (fieldsFrom c specs).find? (fun f => f.name = name) = some f ∧
        f.kind = s.kind ∧ f.width = s.width := by
  induction specs with
  | nil => exact fun _ => .inl ⟨rfl, rfl⟩
  | cons s specs ih =>
      intro c
      rw [fieldsFrom, place_eq_cover]
      by_cases hname : s.name = name
      · right
        refine ⟨s, _, by simp [hname], by simp [hname]; rfl, rfl, ?_⟩
        exact c.lengthAll_cover s.width
      · simp only [List.find?_cons, hname, decide_false]
        exact ih _

end FieldSpec

/-- In the record without bits every field is zero. -/
lemma Field.get_empty (f : Field) : f.get {} = 0 := by
  have hspans : ∀ spans : List Span, Field.getSpans {} 0 spans = 0 := by
    intro spans
    induction spans with
    | nil => rfl
    | cons s spans ih =>
        have hspan : s.get {} = 0 := by
          have hbyte : ({} : Record).byte s.byte = 0 := by
            unfold Record.byte
            split <;> rfl
          simp [Span.get, hbyte]
        simpa [Field.getSpans, hspan] using ih
  exact hspans f.spans

namespace Layout

variable {l m : Layout}

lemma Alike.symm (h : l.Alike m) : m.Alike l := by
  intro name
  rcases h name with ⟨hl, hm⟩ | ⟨f, g, hf, hg, hkind, hwidth⟩
  · exact .inl ⟨hm, hl⟩
  · exact .inr ⟨g, f, hg, hf, hkind.symm, hwidth.symm⟩

/-- **Fields can be packed in any order**, to a layout of the same fields. -/
theorem pack_perm {specs specs' : List FieldSpec} (h : specs'.Perm specs)
    (hl : pack specs = .ok l) : ∃ m, pack specs' = .ok m ∧ l.Alike m := by
  obtain ⟨hdecl, hnodup, hfits, rfl⟩ := (pack_ok_iff _ _).mp hl
  have hnodup' := (h.map (·.name)).nodup_iff.mpr hnodup
  refine ⟨_, (pack_ok_iff _ _).mpr
    ⟨fun s hs => hdecl s (h.subset hs), hnodup', (h.map FieldSpec.width).sum_eq ▸ hfits, rfl⟩, ?_⟩
  intro name
  have hfind := find?_perm h hnodup' name
  rcases FieldSpec.find?_fieldsFrom name specs .start with
    ⟨hs, hf⟩ | ⟨s, f, hs, hf, hkind, hwidth⟩ <;>
  rcases FieldSpec.find?_fieldsFrom name specs' .start with
    ⟨ht, hg⟩ | ⟨t, g, ht, hg, hkind', hwidth'⟩ <;>
  rw [hs, ht] at hfind
  · exact .inl ⟨hf, hg⟩
  · cases hfind
  · cases hfind
  · obtain rfl := Option.some.inj hfind
    exact .inr ⟨f, g, hf, hg, hkind'.trans hkind.symm, hwidth'.trans hwidth.symm⟩

/-! ## Records

A field that is missing in one layout is missing in the other.
-/

/-- What a record holds in the field of a given name. -/
def get? (l : Layout) (r : Record) (name : String) : Option UInt32 :=
  (l.field? name).map fun f => f.get r

/-- Under its layout each of the records has the same value in every field. -/
def SameValues (l m : Layout) (r s : Record) : Prop := ∀ name, l.get? r name = m.get? s name

variable {specs specs' : List FieldSpec} {r s : Record}

lemma SameValues.empty (h : l.Alike m) : SameValues l m {} {} := by
  intro name
  rw [get?, get?]
  rcases h name with ⟨hl, hm⟩ | ⟨f, g, hf, hg, -⟩
  · rw [hl, hm, Option.map_none]
  · rw [hf, hg, Option.map_some, Option.map_some, Field.get_empty, Field.get_empty]

/-- It is enough to compare the declared fields. -/
lemma SameValues.of_fields (h : l.Alike m)
    (hr : ∀ f ∈ l.fields, l.get? r f.name = m.get? s f.name) : SameValues l m r s := by
  intro name
  rcases h name with ⟨hl, hm⟩ | ⟨f, -, hf, -⟩
  · rw [get?, get?, hl, hm, Option.map_none, Option.map_none]
  · obtain ⟨hmem, rfl⟩ := mem_of_field? hf
    exact hr f hmem

/-- Values are read by name. -/
lemma SameValues.read (h : l.Alike m) (hr : SameValues l m r s) (pos pos' : Position)
    (name : String) : (l.read pos r name).toOption = (m.read pos' s name).toOption := by
  have hsame := hr name
  rw [get?, get?] at hsame
  rcases h name with ⟨hl, hm⟩ | ⟨f, g, hf, hg, hkind, -⟩
  · rw [Layout.read, Layout.read, hl, hm]
    rfl
  · rw [hf, hg, Option.map_some, Option.map_some, Option.some.injEq] at hsame
    simp only [Layout.read, hf, hg, Field.value, hkind, hsame]

/-- A field holds what was written to it, cut to its width, and the others hold what they held. -/
lemma get?_set (hl : pack specs = .ok l) {name : String} {f : Field} (hf : l.field? name = some f)
    (r : Record) (v : UInt32) (other : String) :
    l.get? (f.set r v) other
      = if other = name then some (UInt32.ofNat (v.toNat % 2 ^ f.width)) else l.get? r other := by
  obtain ⟨hmem, hname⟩ := mem_of_field? hf
  have hsep := separate_of_pack hl hmem
  rw [get?, get?]
  split_ifs with hother
  · rw [hother, hf, Option.map_some, ← Field.get_set_self hsep r v, UInt32.ofNat_toNat]
  · cases hd : l.field? other with
    | none => rfl
    | some d =>
        obtain ⟨hmem', hname'⟩ := mem_of_field? hd
        have hne : f.name ≠ d.name := by
          rw [hname, hname']
          exact Ne.symm hother
        rw [Option.map_some, Option.map_some,
          Field.get_set_of_disjoint hsep (separate_of_pack hl hmem')
            (disjoint_of_pack hl hmem hmem' hne)]

/-- **The same value in a field keeps the values of two records the same.** -/
lemma SameValues.set (hl : pack specs = .ok l) (hm : pack specs' = .ok m)
    (hr : SameValues l m r s) {name : String} {f g : Field} (hf : l.field? name = some f)
    (hg : m.field? name = some g) (hfg : f.Alike g) (v : UInt32) :
    SameValues l m (f.set r v) (g.set s v) := by
  intro other
  rw [get?_set hl hf, get?_set hm hg, hfg.2, hr other]

/-- A record holds the same after all that is no field is left out. -/
lemma get?_clean (hl : pack specs = .ok l) (r : Record) (name : String) :
    l.get? (Machine.clean l r) name = l.get? r name := by
  rw [get?, get?]
  cases hf : l.field? name with
  | none => rfl
  | some f => rw [Option.map_some, Option.map_some, Machine.agree_clean hl r f (mem_of_field? hf).1]

/-- What is kept of two records has the same values. -/
lemma SameValues.clean (hl : pack specs = .ok l) (hm : pack specs' = .ok m)
    (hr : SameValues l m r s) : SameValues l m (Machine.clean l r) (Machine.clean m s) := by
  intro name
  rw [get?_clean hl, get?_clean hm, hr name]

end Layout

end Cellular
