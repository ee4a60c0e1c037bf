import Cellular.Config.Resolve
import Cellular.Proofs.Yaml.Documents
import Mathlib.Data.List.Forall2

/-!
# Reading values from trees

A document without references is read part by part, and what fits is read as it stands.

* `Decoding.Gives` says that a step of reading gives a value and notes nothing.
* `gives_text`, `gives_int`, `gives_float` and `gives_list` are about the values of entries.
* `Shape.Fills` says what the entries of a mapping make of a record; `Shape.Fills.gives_read`: the
  mapping is read as that record.

Most of what reading can do is not met with here: references, tags, entries that are taken over,
values that do not fit.  `Decoding.Gives` describes the way on which none of it happens.  It says
that nothing is noted and that the document is left as it is, whatever was read before, so that
steps may be put together without a look at the state they share.  A written record is then read
entry by entry.  The relation `Shape.Fills` goes along with the fold over entries; it keeps the list
of keys that were read, since a key must not come twice.
-/

namespace Cellular

open Yaml (Document Node Meaning Outline)

namespace Decoding

/-! ## Steps

The rules by which steps of this sort are combined.
-/

/-- Outside references, the step gives a value, and nothing is noted. -/
def Gives {α : Type} (m : Decoding α) (a : α) : Prop :=
  ∀ p : Progress, p.entered = [] → p.referred = 0 → ∃ visits, m p = .ok (a, { p with visits })

section Steps

variable {α β : Type} {m : Decoding α} {a : α} {b : β}

lemma gives_pure : Gives (pure a : Decoding α) a := fun p _ _ => ⟨p.visits, rfl⟩

lemma Gives.bind {f : α → Decoding β} (h : Gives m a) (hf : Gives (f a) b) : Gives (m >>= f) b := by
  intro p hentered hreferred
  obtain ⟨visits, hm⟩ := h p hentered hreferred
  obtain ⟨visits', hb⟩ := hf { p with visits } hentered hreferred
  refine ⟨visits', ?_⟩
  change (m p >>= fun s => f s.1 s.2) = _
  rw [hm]
  exact hb

lemma Gives.get {f : Progress → Decoding β} (h : ∀ p, Gives (f p) b) : Gives (get >>= f) b :=
  fun p hentered hreferred => h p p hentered hreferred

lemma gives_count : Gives count () := by
  intro p hentered hreferred
  refine ⟨p.visits + 1, ?_⟩
  simp only [count, bind, StateT.bind, get, getThe, MonadStateOf.get, StateT.get, pure, Except.pure,
    Except.bind, hentered, hreferred, List.isEmpty_nil, if_true]
  simp [set, StateT.set, pure, Except.pure]

/-- What is not a reference is looked at itself. -/
lemma Gives.visit {n : Node} {look : Node → Decoding β} (h : Gives (look n) b)
    (hn : ∀ line name number target, n ≠ .reference line name number target) :
    Gives (visit n look) b := by
  cases n with
  | reference line name number target => exact absurd rfl (hn line name number target)
  | _ => exact gives_count.bind h

/-- **Steps on the parts of a list give the list of what they give.** -/
lemma gives_mapM {γ : Type} {item : γ → Decoding β} {ns : List γ} {bs : List β}
    (h : List.Forall₂ (fun n b => Gives (item n) b) ns bs) : Gives (ns.mapM item) bs := by
  induction h with
  | nil => exact gives_pure
  | cons hn _ ih =>
      rw [List.mapM_cons]
      exact hn.bind (ih.bind gives_pure)

end Steps

/-! ## Values

A scalar without a tag has a meaning by its text and by whether it stands in quotes.
-/

section Values

variable {plain : Bool} {line : Nat} {s : String}

/-- The meaning of a scalar without a tag. -/
abbrev Means (plain : Bool) (s : String) (m : Meaning) : Prop :=
  Meaning.ofTagged? (Yaml.scalarTag none plain s) s = some m

lemma gives_meaning {m : Meaning} (h : Means plain s m) : Gives (meaning none plain s) m := by
  rw [meaning, h]
  exact gives_pure

/-- **A text is read as it is written.** -/
lemma gives_text (h : Means plain s .text) : Gives (text (.scalar line none plain s)) (some s) :=
  .visit ((gives_meaning h).bind (gives_pure.bind gives_pure)) nofun

lemma gives_int {i : Int} (h : Means plain s (.int i)) (hi : i < Yaml.wordEnd) :
    Gives (int (.scalar line none plain s)) (some i) := by
  refine .visit ((gives_meaning h).bind ?_) nofun
  simp only [if_pos hi]
  exact gives_pure

lemma gives_float {i : Int} (h : Means plain s (.int i)) :
    Gives (float (.scalar line none plain s)) (some (Yaml.floatOfInt i)) :=
  .visit ((gives_meaning h).bind gives_pure) nofun

lemma gives_list {β : Type} {wanted : String} {item : Node → Decoding (Option β)} {ns : List Node}
    {bs : List β} (h : List.Forall₂ (fun n b => Gives (item n) (some b)) ns bs) :
    Gives (list wanted item (.sequence line none ns)) (some bs) := by
  have hitems : Gives (ns.mapM item) (bs.map some) :=
    gives_mapM (List.forall₂_map_right_iff.mpr h)
  have hvalues : (bs.map some).filterMap (fun v => v) = bs := by
    simp
  refine .visit (hitems.bind ?_) nofun
  rw [hvalues]
  exact gives_pure

end Values

end Decoding

open Decoding (Gives Means gives_pure)

/-! ## Records

Each entry sets one part of the record and leaves the others.
-/

namespace Shape

variable {σ : Type} {s : Shape σ} {r r' : σ}

/-- Entries make a record of another one: all of them have keys that the record has, each key is
there once, and each value is read. -/
inductive Fills (s : Shape σ) : List String → σ → List (Node × Node) → σ → Prop
  | nil {done : List String} {r : σ} : Fills s done r [] r
  | cons {done : List String} {r r' r'' : σ} {line : Nat} {name : String} {value : Node}
      {set : Node → σ → Decoding σ} {more : List (Node × Node)} (hname : Means true name .text)
      (hmerge : name ≠ Yaml.mergeKey) (hdone : name ∉ done) (hset : s.set name = some set)
      (hvalue : Gives (set value r) r') (hmore : Fills s (name :: done) r' more r'') :
      Fills s done r ((.scalar line none true name, value) :: more) r''

/-- Entries may also be read if fewer keys were read before. -/
lemma Fills.mono {done done' : List String} {entries : List (Node × Node)}
    (h : Fills s done r entries r') (hdone : ∀ name ∈ done', name ∈ done) :
    Fills s done' r entries r' := by
  induction h generalizing done' with
  | nil => exact .nil
  | cons hname hmerge hnot hset hvalue _ ih =>
      refine .cons hname hmerge (fun hmem => hnot (hdone _ hmem)) hset hvalue (ih ?_)
      rw [List.forall_mem_cons]
      exact ⟨List.mem_cons_self, fun k hk => List.mem_cons_of_mem _ (hdone k hk)⟩

lemma Fills.not_mem {done : List String} {entries : List (Node × Node)}
    (h : Fills s done r entries r') :
    ∀ e ∈ entries, ∃ line name, e.1 = .scalar line none true name ∧ name ∉ done := by
  induction h with
  | nil => nofun
  | @cons done _ _ _ line name _ _ _ _ _ hdone _ _ _ ih =>
      rw [List.forall_mem_cons]
      refine ⟨⟨line, name, rfl, hdone⟩, fun e he => ?_⟩
      obtain ⟨line', name', hkey, hnot⟩ := ih e he
      exact ⟨line', name', hkey, fun hmem => hnot (List.mem_cons_of_mem _ hmem)⟩

lemma Fills.duplicateKeys {done : List String} {entries : List (Node × Node)}
    (h : Fills s done r entries r') : duplicateKeys entries = [] := by
  induction h with
  | nil => rfl
  | cons _ _ _ _ _ hmore ih =>
      rw [Cellular.duplicateKeys, ih, List.append_nil, repeatsOf, List.map_eq_nil_iff,
        List.filter_eq_nil_iff]
      intro e he
      obtain ⟨line', name', hkey, hnot⟩ := hmore.not_mem e he
      simp only [hkey, sameKey, decide_eq_true_eq]
      rintro rfl
      exact hnot List.mem_cons_self

/-- **The entries are read one after the other.** -/
lemma Fills.gives_foldlM {done : List String} {entries : List (Node × Node)}
    (h : Fills s done r entries r') :
    ∃ done', Gives (entries.foldlM (fun f e => s.entry f e.1 e.2) ⟨r, done, none, none⟩)
      ⟨r', done', none, none⟩ := by
  induction h with
  | @nil done r => exact ⟨done, gives_pure⟩
  | @cons done r r₁ _ line name value set more hname hmerge hdone hset hvalue hmore ih =>
      obtain ⟨done', hfold⟩ := ih
      refine ⟨done', ?_⟩
      have hput : Gives (s.put ⟨r, done, none, none⟩ name (.scalar line none true name) value)
          ⟨r₁, name :: done, none, none⟩ := by
        rw [put, hset]
        simp only [if_neg hdone]
        exact hvalue.bind gives_pure
      have hentry : Gives (s.entry ⟨r, done, none, none⟩ (.scalar line none true name) value)
          ⟨r₁, name :: done, none, none⟩ := by
        rw [entry, if_neg (by simp [isMerge, hmerge])]
        exact (Decoding.gives_text hname).bind hput
      rw [List.foldlM_cons]
      exact hentry.bind hfold

/-- **A mapping is read as the record that its entries make.** -/
theorem Fills.gives_read {line : Nat} {entries : List (Node × Node)} (h : Fills s [] r entries r') :
    Gives (s.read r (.mapping line none entries)) (some r') := by
  obtain ⟨done', hfold⟩ := h.gives_foldlM
  have hfill : ∀ fuel, Gives (s.fill (fuel + 1) none entries r) (r', none) := by
    intro fuel
    rw [fill, h.duplicateKeys]
    exact hfold.bind gives_pure
  refine .visit (.get fun p => ?_) nofun
  obtain ⟨fuel, hfuel⟩ : ∃ f, (p.document.size + 1) * (p.document.size + 1) = f + 1 :=
    ⟨_, (Nat.succ_pred_eq_of_pos (Nat.mul_pos (Nat.succ_pos _) (Nat.succ_pos _))).symm⟩
  simp only [hfuel]
  exact (hfill fuel).bind gives_pure

end Shape

/-! ## Written outlines

A text that could be taken for something else is written in quotes, and then it is taken for a text.
-/

section Outlines

open Yaml.Outline (itemNodes entryNodes)

variable {σ : Type} {s : Shape σ}

/-- **A written text means itself**, in each of its styles. -/
lemma means_of_ofText (text : String) :
    Means (decide (Yaml.ScalarStyle.ofText text = .plain)) text .text := by
  cases hplain : decide (Yaml.ScalarStyle.ofText text = .plain) with
  | false => rfl
  | true =>
      have hmeans : Yaml.resolve text = .text := by
        rw [decide_eq_true_eq, Yaml.ScalarStyle.ofText, Yaml.ScalarStyle.ofLines] at hplain
        split_ifs at hplain with _ _ hself
        rw [Yaml.meansItself] at hself
        split at hself
        · assumption
        · cases hself
      have htag : Yaml.scalarTag none true text = if text = Yaml.mergeKey then Yaml.mergeTag
          else Yaml.textTag := by
        simp [Yaml.scalarTag, hmeans, Meaning.tag, Yaml.textTag]
      rw [Means, htag]
      split <;> rfl

lemma gives_outline_text (text : String) (line : Nat) :
    Gives (Decoding.text ((Outline.text text).node line)) (some text) := by
  rw [Outline.node]
  exact Decoding.gives_text (means_of_ofText text)

/-- Outlines of values give the values, wherever they start. -/
lemma gives_outline_list {β : Type} {wanted : String} {item : Node → Decoding (Option β)}
    {ts : List Outline} {bs : List β}
    (h : List.Forall₂ (fun t b => ∀ line, Gives (item (t.node line)) (some b)) ts bs) (line : Nat) :
    Gives (Decoding.list wanted item ((Outline.list ts).node line)) (some bs) := by
  have hitems : ∀ line,
      List.Forall₂ (fun n b => Gives (item n) (some b)) (itemNodes line ts) bs := by
    induction h with
    | nil => exact fun line => by rw [itemNodes]; exact .nil
    | cons ht _ ih =>
        intro line
        rw [itemNodes]
        exact .cons (ht line) (ih _)
  rw [Outline.node]
  exact Decoding.gives_list (hitems line)

/-- Entries of an outline make a record of another one, wherever they start. -/
def Shape.FillsOutline (s : Shape σ) (done : List String) (r : σ)
    (entries : List (String × Outline)) (r' : σ) : Prop :=
  ∀ line, s.Fills done r (entryNodes line entries) r'

lemma Shape.fillsOutline_nil {done : List String} {r : σ} : s.FillsOutline done r [] r := by
  intro line
  rw [entryNodes]
  exact .nil

/-- An entry with a value that is read. -/
lemma Shape.FillsOutline.cons {done : List String} {r r' r'' : σ} {name : String} {t : Outline}
    {β : Type} {read : Node → Decoding (Option β)} {put : σ → β → σ} {b : β}
    {more : List (String × Outline)} (hmore : s.FillsOutline (name :: done) r' more r'')
    (hset : s.set name = Shape.field read put) (hname : Yaml.ScalarStyle.ofText name = .plain)
    (hmerge : name ≠ Yaml.mergeKey) (hdone : name ∉ done)
    (hvalue : ∀ line, Gives (read (t.node line)) (some b)) (hput : put r b = r') :
    s.FillsOutline done r ((name, t) :: more) r'' := by
  intro line
  rw [entryNodes]
  refine .cons (by simpa [hname] using means_of_ofText name) hmerge hdone hset ?_ (hmore _)
  rw [← hput]
  exact (hvalue _).bind gives_pure

/-- An entry that is left out where it says nothing. -/
lemma Shape.FillsOutline.unless {done : List String} {r r' r'' : σ} {name : String} {t : Outline}
    {β : Type} {read : Node → Decoding (Option β)} {put : σ → β → σ} {b : β}
    {more : List (String × Outline)} {P : Prop} [Decidable P]
    (hmore : s.FillsOutline (name :: done) r' more r'')
    (hset : s.set name = Shape.field read put) (hname : Yaml.ScalarStyle.ofText name = .plain)
    (hmerge : name ≠ Yaml.mergeKey) (hdone : name ∉ done)
    (hvalue : ∀ line, Gives (read (t.node line)) (some b)) (hput : put r b = r')
    (hnothing : P → r' = r) :
    s.FillsOutline done r ((if P then [] else [(name, t)]) ++ more) r'' := by
  split_ifs with hP
  · rw [hnothing hP] at hmore
    exact fun line => (hmore line).mono fun k hk => List.mem_cons_of_mem _ hk
  · exact hmore.cons hset hname hmerge hdone hvalue hput

/-- **A written record is read as the record that its entries make.** -/
lemma Shape.FillsOutline.gives_read {r r' : σ} {entries : List (String × Outline)}
    (h : s.FillsOutline [] r entries r') (line : Nat) :
    Gives (s.read r ((Outline.record entries).node line)) (some r') := by
  rw [Outline.node]
  exact (h line).gives_read

/-! ## Configurations

Kernels are read on their own, each with the document that it stands in.
-/

lemma decodeKernel_of_gives {d : Document} {name : String} {n : Node} {k : KernelSpec}
    (h : Gives (KernelSpec.shape.read { name } n) (some k)) : decodeKernel d name n = .ok k := by
  obtain ⟨visits, hread⟩ := h { document := d } rfl rfl
  rw [decodeKernel, StateT.run, hread]
  rfl

/-- **Written kernels are read** by their names, in their order. -/
lemma gives_readCounts {entries : List (String × Outline)} {ks : List KernelSpec}
    (h : List.Forall₂ (fun e k => ∀ line,
      Gives (KernelSpec.shape.read { name := e.1 } (e.2.node line)) (some k)) entries ks)
    (line : Nat) : Gives (readCounts ((Outline.record entries).node line)) (some ks) := by
  have hkernels : ∀ d line, decodeKernels d (entryNodes line entries) = .ok ks := by
    intro d
    induction h with
    | nil => exact fun line => by rw [entryNodes]; rfl
    | @cons e k _ _ hk _ ih =>
        intro line
        obtain ⟨name, t⟩ := e
        rw [entryNodes, decodeKernels, keyText, decodeKernel_of_gives (hk _), ih]
        rfl
  rw [Outline.node]
  refine .visit (.get fun p => ?_) (by simp)
  simp only [hkernels]
  exact gives_pure

/-- A configuration is read from a tree that gives it. -/
lemma decodeConfig_of_gives {d : Document} {c : Config}
    (h : Gives (Config.shape.read {} d.root) (some c)) : decodeConfig d = .ok c := by
  obtain ⟨visits, hread⟩ := h { document := d } rfl rfl
  rw [decodeConfig, StateT.run, hread]
  rfl

end Outlines

end Cellular
