import Cellular.Config.Resolve
import Cellular.Proofs.Success

/-!
# Unknown keys of configurations

Reading a document notes what does not fit and goes on.  What was noted is never lost, so a key that
a record does not have ends in an error, however deep in the document it stands.

* `Decoding.Keeps` says that a step of reading loses no fault; every step does, and
  `Decoding.Refuses` says that a step which goes through leaves a fault behind.
* `Shape.refuses_fill`: a strict record refuses a mapping with an unknown key.
* `Config.Misspelt` says where in a document an unknown key stands; `Config.parse_misspelt`: no
  configuration is read from such a document.

Reading is written as a sequence of steps in a monad with two kinds of failure: a step may stop, or
it may note a fault and go on with what it has.  A theorem about documents of any form cannot follow
all the steps.  It only needs that faults are never dropped (`Keeps`), which is proved once for
every step that there is, and that at one place a fault is noted (`Refuses`).  The two are combined
along the way from the root of the document to the unknown key.  Keys and values may be references
to other nodes, and so the way is described in terms of what a node denotes.

Neighbour counts are read in another manner, and the last example shows what that means for their
keys.
-/

namespace Cellular

open Yaml (Document Node Meaning)

/-! ## Steps of reading

These are the rules for both properties: one for each way in which steps are combined.
-/

namespace Decoding

/-- The step loses no fault and stays in its document; what it gives satisfies `P`. -/
def Keeps {α : Type} (m : Decoding α) (P : α → Prop) : Prop :=
  ∀ p a q, m p = .ok (a, q) → P a ∧ q.document = p.document ∧ (p.faults ≠ [] → q.faults ≠ [])

/-- If the step goes through in the document `d`, it leaves a fault. -/
def Refuses {α : Type} (d : Document) (m : Decoding α) : Prop :=
  ∀ p a q, p.document = d → m p = .ok (a, q) → q.faults ≠ []

variable {α β : Type} {d : Document} {P : α → Prop} {Q : β → Prop} {m : Decoding α}

/-- Two steps in turn go through if both do. -/
lemma bind_run_eq_ok {f : α → Decoding β} {p q : Progress} {b : β} :
    (m >>= f) p = .ok (b, q) ↔ ∃ a r, m p = .ok (a, r) ∧ f a r = .ok (b, q) := by
  change (m p >>= fun s => f s.1 s.2) = .ok (b, q) ↔ _
  rw [bind_eq_ok, Prod.exists]

lemma Keeps.weaken {P' : α → Prop} (h : Keeps m P) (himp : ∀ a, P a → P' a) : Keeps m P' :=
  fun p a q hrun => ⟨himp a (h p a q hrun).1, (h p a q hrun).2⟩

lemma keeps_pure {a : α} (h : P a) : Keeps (pure a) P := by
  rintro p b q hrun
  cases hrun
  exact ⟨h, rfl, id⟩

lemma Keeps.bind {f : α → Decoding β} (h : Keeps m P) (hf : ∀ a, P a → Keeps (f a) Q) :
    Keeps (m >>= f) Q := by
  intro p b q hrun
  obtain ⟨a, r, ha, hb⟩ := bind_run_eq_ok.mp hrun
  obtain ⟨hP, hdoc, hfaults⟩ := h p a r ha
  obtain ⟨hQ, hdoc', hfaults'⟩ := hf a hP r b q hb
  exact ⟨hQ, hdoc'.trans hdoc, fun hp => hfaults' (hfaults hp)⟩

lemma keeps_stop : Keeps (stop : Decoding α) P := by
  rintro p a q ⟨⟩

lemma keeps_throw (e : Error) : Keeps (throw e : Decoding α) P := by
  rintro p a q ⟨⟩

lemma keeps_note (faults : List Mismatch) : Keeps (note faults) fun _ => True := by
  rintro p a q ⟨⟩
  exact ⟨trivial, rfl, fun h => List.append_ne_nil_of_left_ne_nil h _⟩

lemma Refuses.bind {f : α → Decoding β} (h : Refuses d m) (hf : ∀ a, Keeps (f a) fun _ => True) :
    Refuses d (m >>= f) := by
  intro p b q hp hrun
  obtain ⟨a, r, ha, hb⟩ := bind_run_eq_ok.mp hrun
  exact (hf a r b q hb).2.2 (h p a r hp ha)

lemma Keeps.bind_refuses {f : α → Decoding β} (h : Keeps m P) (hf : ∀ a, P a → Refuses d (f a)) :
    Refuses d (m >>= f) := by
  intro p b q hp hrun
  obtain ⟨a, r, ha, hb⟩ := bind_run_eq_ok.mp hrun
  obtain ⟨hP, hdoc, -⟩ := h p a r ha
  exact hf a hP r b q (hdoc.trans hp) hb

lemma refuses_note {faults : List Mismatch} (h : faults ≠ []) : Refuses d (note faults) := by
  rintro p a q - ⟨⟩
  exact List.append_ne_nil_of_right_ne_nil _ h

lemma refuses_stop : Refuses d (stop : Decoding α) := by
  rintro p a q - ⟨⟩

/-! ### Several steps -/

lemma keeps_foldlM {I : β → Prop} {f : β → α → Decoding β} :
    ∀ {as : List α} {b : β}, I b → (∀ b, I b → ∀ a ∈ as, Keeps (f b a) I) →
      Keeps (as.foldlM f b) I
  | [], b, hb, hf => by
      rw [List.foldlM_nil]
      exact keeps_pure hb
  | a :: as, b, hb, hf => by
      rw [List.foldlM_cons]
      refine (hf b hb a List.mem_cons_self).bind fun b' hb' => ?_
      exact keeps_foldlM hb' fun c hc a' ha' => hf c hc a' (List.mem_cons_of_mem _ ha')

/-- Steps over a list leave a fault if one of them does. -/
lemma refuses_foldlM {I : β → Prop} {f : β → α → Decoding β} {x : α} :
    ∀ {as : List α} {b : β}, I b → (∀ b, I b → ∀ a ∈ as, Keeps (f b a) I) → x ∈ as →
      (∀ b, I b → Refuses d (f b x)) → Refuses d (as.foldlM f b)
  | a :: as, b, hb, hf, hx, hrefuse => by
      have hmore : ∀ b, I b → ∀ a ∈ as, Keeps (f b a) I :=
        fun c hc a' ha' => hf c hc a' (List.mem_cons_of_mem _ ha')
      rw [List.foldlM_cons]
      rcases List.mem_cons.mp hx with rfl | hx
      · intro p c q hp hrun
        obtain ⟨b', r, hb', hc⟩ := bind_run_eq_ok.mp hrun
        have hI := (hf b hb x List.mem_cons_self p b' r hb').1
        exact (keeps_foldlM hI hmore r c q hc).2.2 (hrefuse b hb p b' r hp hb')
      · exact (hf b hb a List.mem_cons_self).bind_refuses fun b' hb' =>
          refuses_foldlM hb' hmore hx hrefuse

lemma keeps_mapM {f : α → Decoding β} :
    ∀ {as : List α}, (∀ a ∈ as, Keeps (f a) fun _ => True) → Keeps (as.mapM f) fun _ => True
  | [], _ => by
      rw [List.mapM_nil]
      exact keeps_pure trivial
  | a :: as, hf => by
      rw [List.mapM_cons]
      refine (hf a List.mem_cons_self).bind fun _ _ => ?_
      refine (keeps_mapM fun a' ha' => hf a' (List.mem_cons_of_mem _ ha')).bind fun _ _ => ?_
      exact keeps_pure trivial

lemma refuses_mapM {f : α → Decoding β} {x : α} :
    ∀ {as : List α}, (∀ a ∈ as, Keeps (f a) fun _ => True) → x ∈ as → Refuses d (f x) →
      Refuses d (as.mapM f)
  | a :: as, hf, hx, hrefuse => by
      have hmore := keeps_mapM fun a' ha' => hf a' (List.mem_cons_of_mem _ ha')
      rw [List.mapM_cons]
      rcases List.mem_cons.mp hx with rfl | hx
      · exact hrefuse.bind fun _ => hmore.bind fun _ _ => keeps_pure trivial
      · refine (hf a List.mem_cons_self).bind_refuses fun _ _ => ?_
        refine (refuses_mapM (fun a' ha' => hf a' (List.mem_cons_of_mem _ ha')) hx hrefuse).bind
          fun _ => ?_
        exact keeps_pure trivial

end Decoding

/-! ## Nodes and what they stand for

A node is either itself or refers to another one, which is found in the document by its number.
-/

/-- The node itself, or the one that it refers to. -/
inductive Denotes (d : Document) : Node → Node → Prop where
  | here {n : Node} (h : ∀ line name number target, n ≠ .reference line name number target) :
    Denotes d n n
  | there {line number target : Nat} {name : String} {m : Node} (h : d.named[target]? = some m) :
    Denotes d (.reference line name number target) m

/-- A node stands for one node. -/
lemma Denotes.unique {d : Document} {n m m' : Node} (h : Denotes d n m) (h' : Denotes d n m') :
    m = m' := by
  cases h with
  | here hn =>
      cases h' with
      | here => rfl
      | there => exact absurd rfl (hn _ _ _ _)
  | there hm =>
      cases h' with
      | here hn => exact absurd rfl (hn _ _ _ _)
      | there hm' => exact Option.some.inj (hm.symm.trans hm')

/-- Whether a node is a scalar that means nothing. -/
def isNothing : Node → Bool
  | .scalar _ tag plain text =>
    match Meaning.ofTagged? (Yaml.scalarTag tag plain text) text with
    | some .null => true
    | _ => false
  | _ => false

/-- The text that a node stands for as a key: that of a scalar, or the bytes that it spells. -/
def keyName? : Node → Option String
  | .scalar _ tag _ text =>
    if tag = some "!!binary" then (Text.base64? text.toList).map Text.ofBytes else some text
  | _ => none

namespace Decoding

variable {α : Type} {d : Document} {P : α → Prop} {n m : Node} {look : Node → Decoding α}

/-- A look at a node is one at the node that it stands for. -/
lemma visit_run {p q : Progress} {a : α} (h : visit n look p = .ok (a, q)) :
    ∃ m p' q', Denotes p.document n m ∧ look m p' = .ok (a, q') ∧
      (p'.document = p.document ∧ p'.faults = p.faults) ∧
      q.document = q'.document ∧ q.faults = q'.faults := by
  have hcount : ∀ {p q : Progress} {u : Unit}, count p = .ok (u, q) →
      q.document = p.document ∧ q.faults = p.faults := by
    intro p q u hrun
    simp only [count, bind_run_eq_ok] at hrun
    obtain ⟨p', r, hget, hrun⟩ := hrun
    cases hget
    split_ifs at hrun
    all_goals cases hrun
    all_goals exact ⟨rfl, rfl⟩
  simp only [visit, bind_run_eq_ok] at h
  obtain ⟨⟨⟩, r, hr, h⟩ := h
  obtain ⟨hdoc, hfaults⟩ := hcount hr
  cases n with
  | reference line name number target =>
      simp only [bind_run_eq_ok] at h
      obtain ⟨r', p₁, hget, h⟩ := h
      cases hget
      cases hm : r.document.named[target]? with
      | none =>
          simp only [hm] at h
          cases h
      | some m =>
          simp only [hm] at h
          split_ifs at h
          · cases h
          simp only [bind_run_eq_ok] at h
          obtain ⟨⟨⟩, p₂, hset, ⟨⟩, p₃, hcount', b, q', hlook, ⟨⟩, q₁, hmodify, hpure⟩ := h
          cases hset
          cases hmodify
          cases hpure
          obtain ⟨hdoc', hfaults'⟩ := hcount hcount'
          exact ⟨m, p₃, q', .there (hdoc ▸ hm), hlook, ⟨hdoc'.trans hdoc, hfaults'.trans hfaults⟩,
            rfl, rfl⟩
  | _ => exact ⟨_, r, q, .here (by simp), h, ⟨hdoc, hfaults⟩, rfl, rfl⟩

lemma keeps_visit (h : ∀ m, Keeps (look m) P) : Keeps (visit n look) P := by
  intro p a q hrun
  obtain ⟨m, p', q', -, hlook, ⟨hdoc, hfaults⟩, hdoc', hfaults'⟩ := visit_run hrun
  obtain ⟨hP, hkeep, hmore⟩ := h m p' a q' hlook
  rw [hdoc', hfaults', ← hdoc, ← hfaults]
  exact ⟨hP, hkeep, hmore⟩

lemma refuses_visit (hn : Denotes d n m) (h : Refuses d (look m)) : Refuses d (visit n look) := by
  intro p a q hp hrun
  obtain ⟨m', p', q', hm', hlook, ⟨hdoc, -⟩, -, hfaults'⟩ := visit_run hrun
  obtain rfl := hn.unique (hp ▸ hm')
  rw [hfaults']
  exact h p' a q' (hdoc.trans hp) hlook

/-! ### Values -/

lemma keeps_misfit {wanted : String} {β : Type} :
    Keeps (misfit wanted n : Decoding (Option β)) fun _ => True :=
  (keeps_note _).bind fun _ _ => keeps_pure trivial

lemma keeps_meaning {tag : Option String} {plain : Bool} {text : String} :
    Keeps (meaning tag plain text) fun v =>
      Meaning.ofTagged? (Yaml.scalarTag tag plain text) text = some v := by
  rw [meaning]
  cases h : Meaning.ofTagged? (Yaml.scalarTag tag plain text) text with
  | none => exact keeps_stop
  | some v => exact keeps_pure rfl

lemma keeps_scalarText (line : Nat) (tag : Option String) (plain : Bool) (text : String) :
    Keeps (scalarText tag text) fun s => keyName? (.scalar line tag plain text) = some s := by
  rw [scalarText, keyName?]
  split_ifs with hbinary
  · cases Text.base64? text.toList with
    | none => exact keeps_stop
    | some bytes => exact keeps_pure rfl
  · exact keeps_pure rfl

lemma wrongType_ne_nil {wanted : String} : wrongType wanted n ≠ [] := by
  cases n with
  | mapping line tag entries =>
      rw [wrongType]
      cases h : duplicateKeys entries with
      | nil => simp only [ne_eq, List.cons_ne_self, not_false_eq_true]
      | cons fault faults => simp
  | _ => simp [wrongType]

/-- What is looked at as a key is a text, means nothing, or does not fit. -/
lemma text_run {p q : Progress} {name : Option String} (hn : Denotes p.document n m)
    (h : Decoding.text n p = .ok (name, q)) :
    (∃ s, name = some s ∧ keyName? m = some s) ∨ isNothing m = true ∨ q.faults ≠ [] := by
  obtain ⟨m', p', q', hm', hlook, -, -, hfaults⟩ := visit_run h
  obtain rfl := hn.unique hm'
  rw [hfaults]
  cases m with
  | scalar line tag plain text =>
      obtain ⟨v, r, hv, hlook⟩ := bind_run_eq_ok.mp hlook
      have hmeaning := (keeps_meaning _ _ _ hv).1
      by_cases hnull : ∃ u, u = v ∧ u = .null
      · obtain ⟨u, rfl, rfl⟩ := hnull
        exact .inr (.inl (by rw [isNothing, hmeaning]))
      · obtain ⟨s, r', hs, hlook⟩ : ∃ s r', scalarText tag text r = .ok (s, r') ∧
            (pure (some s) : Decoding _) r' = .ok (name, q') := by
          cases v with
          | null => exact absurd ⟨_, rfl, rfl⟩ hnull
          | _ => exact bind_run_eq_ok.mp hlook
        cases hlook
        exact .inl ⟨s, rfl, (keeps_scalarText line _ plain _ _ _ _ hs).1⟩
  | _ =>
      obtain ⟨⟨⟩, r, hnote, hlook⟩ := bind_run_eq_ok.mp hlook
      cases hlook
      exact .inr (.inr (refuses_note wrongType_ne_nil _ _ _ rfl hnote))

/-- Reading a scalar loses no fault, whatever is made of its meaning. -/
lemma keeps_scalar {β : Type} {tag : Option String} {plain : Bool} {text : String}
    {f : Meaning → Decoding β} {Q : β → Prop} (hf : ∀ v, Keeps (f v) Q) :
    Keeps (meaning tag plain text >>= f) Q :=
  keeps_meaning.bind fun v _ => hf v

lemma keeps_text : Keeps (Decoding.text n) fun _ => True := by
  refine keeps_visit fun m => ?_
  cases m with
  | scalar line tag plain text =>
      refine keeps_scalar fun v => ?_
      cases v with
      | null => exact keeps_pure trivial
      | _ => exact (keeps_scalarText line tag plain text).bind fun _ _ => keeps_pure trivial
  | _ => exact keeps_misfit

lemma keeps_int : Keeps (Decoding.int n) fun _ => True := by
  refine keeps_visit fun m => ?_
  cases m with
  | scalar line tag plain text =>
      refine keeps_scalar fun v => ?_
      cases v with
      | null => exact keeps_pure trivial
      | int i =>
          dsimp only
          split_ifs
          · exact keeps_pure trivial
          · exact keeps_misfit
      | float x =>
          dsimp only
          cases floatWord? x with
          | none => exact keeps_misfit
          | some i => exact keeps_pure trivial
      | _ => exact (keeps_scalarText line tag plain text).bind fun _ _ => keeps_misfit
  | _ => exact keeps_misfit

lemma keeps_readNothing {β : Type} {wanted : String} {ifNull : Option β} :
    Keeps (readNothing wanted ifNull n) fun _ => True := by
  cases n with
  | scalar line tag plain text =>
      refine keeps_scalar fun v => ?_
      cases v with
      | null => exact keeps_pure trivial
      | _ => exact (keeps_scalarText line tag plain text).bind fun _ _ => keeps_misfit
  | _ => exact keeps_misfit

section List

variable {β : Type} {wanted : String} {item : Node → Decoding (Option β)}

lemma keeps_list (h : ∀ m, Keeps (item m) fun _ => True) :
    Keeps (Decoding.list wanted item n) fun _ => True := by
  refine keeps_visit fun m => ?_
  cases m with
  | sequence line tag items =>
      exact (keeps_mapM fun m _ => h m).bind fun _ _ => keeps_pure trivial
  | _ => exact keeps_readNothing

/-- A list leaves a fault if one of its items does. -/
lemma refuses_list {line : Nat} {tag : Option String} {items : List Node}
    (hn : Denotes d n (.sequence line tag items)) (hm : m ∈ items)
    (h : ∀ m, Keeps (item m) fun _ => True) (hitem : Refuses d (item m)) :
    Refuses d (Decoding.list wanted item n) :=
  refuses_visit hn ((refuses_mapM (fun m _ => h m) hm hitem).bind fun _ => keeps_pure trivial)

end List

end Decoding

open Decoding

/-! ## Records

A record is read entry by entry; entries may also be taken over from other records, and are read
behind its own.
-/

/-- The key is read as the name `name`. -/
structure Names (d : Document) (key : Node) (name : String) : Prop where
  entry : isMerge key = false
  denotes : ∃ n, Denotes d key n ∧ isNothing n = false ∧ keyName? n = some name

namespace Shape

variable {σ : Type} {s : Shape σ} {d : Document}

/-- The key takes no entries over, means something, and names no part of the record. -/
structure Unknown (s : Shape σ) (d : Document) (key : Node) : Prop where
  entry : isMerge key = false
  denotes : ∃ n, Denotes d key n ∧ isNothing n = false ∧
    ∀ name, keyName? n = some name → s.set name = none

/-- What the keys of the record do loses no fault. -/
def Careful (s : Shape σ) : Prop :=
  ∀ name set, s.set name = some set → ∀ value r, Keeps (set value r) fun _ => True

lemma keeps_put (hs : s.Careful) (f : Filling σ) (name : String) (key value : Node) :
    Keeps (s.put f name key value) fun g => f.taken = none → g.taken = none := by
  rw [put]
  cases hset : s.set name with
  | none =>
      dsimp only
      split_ifs
      · exact (keeps_note _).bind fun _ _ => keeps_pure id
      · exact keeps_pure id
  | some set =>
      dsimp only
      split_ifs
      · exact (keeps_note _).bind fun _ _ => keeps_pure id
      · exact (hs name set hset value f.record).bind fun _ _ => keeps_pure id

/-- Reads the value of a key that is read as `name`, if it is one. -/
def named (s : Shape σ) (f : Filling σ) (key value : Node) : Option String → Decoding (Filling σ)
  | none => return f
  | some name =>
    match f.taken with
    | none => s.put f name key value
    | some names =>
      if name ∈ names then return f
      else s.put { f with taken := some (name :: names) } name key value

lemma entry_eq {f : Filling σ} {key value : Node} (h : isMerge key = false) :
    s.entry f key value = Decoding.text key >>= s.named f key value := by
  rw [entry, if_neg (by simp [h])]
  congr 1

lemma keeps_named (hs : s.Careful) (f : Filling σ) (key value : Node) :
    ∀ name, Keeps (s.named f key value name) fun g => f.taken = none → g.taken = none
  | none => keeps_pure id
  | some name => by
      have hput := keeps_put hs f name key value
      rw [named]
      cases hnames : f.taken with
      | none => exact hput.weaken fun _ h _ => h hnames
      | some names =>
          dsimp only
          split_ifs
          · exact keeps_pure nofun
          · exact (keeps_put hs _ name key value).weaken fun _ _ => nofun

lemma keeps_entry (hs : s.Careful) (f : Filling σ) (key value : Node) :
    Keeps (s.entry f key value) fun g => f.taken = none → g.taken = none := by
  cases h : isMerge key with
  | true =>
      rw [entry, if_pos h]
      exact keeps_pure id
  | false =>
      rw [entry_eq h]
      exact keeps_text.bind fun name _ => keeps_named hs f key value name

lemma keeps_keyNames : ∀ entries, Keeps (keyNames entries) fun _ => True
  | [] => keeps_pure trivial
  | (key, value) :: more => by
      rw [keyNames]
      refine (keeps_visit (P := fun _ => True) fun m => ?_).bind fun _ _ =>
        (keeps_keyNames more).bind fun _ _ => keeps_pure trivial
      cases m with
      | scalar line tag plain text =>
          refine keeps_scalar fun v => ?_
          cases v with
          | text =>
              exact (keeps_scalarText line tag plain text).bind
                fun _ _ => keeps_pure trivial
          | _ => exact keeps_pure trivial
      | _ => exact keeps_throw _

lemma keeps_sources : ∀ n, Keeps (sources n) fun _ => True
  | .sequence .. => keeps_pure trivial
  | .scalar .. => keeps_stop
  | .mapping .. => keeps_pure trivial
  | .reference .. => keeps_pure trivial

/-- Reads the entries that a mapping takes over from others, behind its own `entries`. -/
def takeOver (s : Shape σ) (fuel : Nat) (entries : List (Node × Node)) (f : Filling σ) :
    Decoding (σ × Option (List String)) :=
  match f.source with
  | none => return (f.record, f.taken)
  | some source => do
    let names ← match f.taken with
      | some names => pure names
      | none => keyNames entries
    let others ← sources source
    let (record, names) ← others.foldlM
      (fun (record, names) n => do
        let (record, taken) ← visit n fun m => match m with
          | .mapping _ _ more => s.fill fuel (some names) more record
          | _ => stop
        return (record, taken.getD names))
      (f.record, names)
    return (record, f.taken.map fun _ => names)

/-- A mapping without repeated keys is read entry by entry, and then what it takes over. -/
lemma fill_succ {fuel : Nat} {taken : Option (List String)} {entries : List (Node × Node)} {r : σ}
    (h : duplicateKeys entries = []) :
    s.fill (fuel + 1) taken entries r =
      entries.foldlM (fun f e => s.entry f e.1 e.2) { record := r, taken }
        >>= s.takeOver fuel entries := by
  rw [fill, h]
  rfl

lemma fill_repeated {fuel : Nat} {taken : Option (List String)} {entries : List (Node × Node)}
    {r : σ} (h : duplicateKeys entries ≠ []) :
    s.fill (fuel + 1) taken entries r
      = note (duplicateKeys entries) >>= fun _ => pure (r, taken) := by
  cases hfaults : duplicateKeys entries with
  | nil => exact absurd hfaults h
  | cons fault faults => rw [fill, hfaults]

lemma keeps_takeOver {fuel : Nat}
    (hfill : ∀ taken entries r, Keeps (s.fill fuel taken entries r) fun _ => True)
    (entries : List (Node × Node)) (f : Filling σ) :
    Keeps (s.takeOver fuel entries f) fun _ => True := by
  have hothers : ∀ (others : List Node) (start : σ × List String),
      Keeps (others.foldlM (fun x n => do
        let (record, taken) ← visit n fun m => match m with
          | .mapping _ _ more => s.fill fuel (some x.2) more x.1
          | _ => stop
        return (record, taken.getD x.2)) start) fun _ => True := by
    intro others start
    refine keeps_foldlM trivial fun x _ n _ => ?_
    refine (keeps_visit (P := fun _ => True) fun m => ?_).bind fun _ _ => keeps_pure trivial
    cases m with
    | mapping line tag more => exact hfill _ _ _
    | _ => exact keeps_stop
  rw [takeOver]
  cases f.source with
  | none => exact keeps_pure trivial
  | some source =>
      cases f.taken with
      | none =>
          exact (keeps_keyNames entries).bind fun _ _ => (keeps_sources source).bind fun _ _ =>
            (hothers _ _).bind fun _ _ => keeps_pure trivial
      | some names =>
          exact (keeps_pure (P := fun _ => True) trivial).bind fun _ _ =>
            (keeps_sources source).bind fun _ _ =>
              (hothers _ _).bind fun _ _ => keeps_pure trivial

/-- A record is filled without harm to what was decoded before, entry by entry and with all that it
takes over from other records. -/
theorem keeps_fill (hs : s.Careful) :
    ∀ (fuel : Nat) (taken : Option (List String)) (entries : List (Node × Node)) (r : σ),
      Keeps (s.fill fuel taken entries r) fun _ => True
  | 0, taken, entries, r => keeps_stop
  | fuel + 1, taken, entries, r => by
      by_cases h : duplicateKeys entries = []
      · rw [fill_succ h]
        refine (keeps_foldlM (I := fun _ => True) trivial fun f _ e _ => ?_).bind fun f _ => ?_
        · exact (keeps_entry hs f e.1 e.2).weaken fun _ _ => trivial
        · exact keeps_takeOver (keeps_fill hs fuel) entries f
      · rw [fill_repeated h]
        exact (keeps_note _).bind fun _ _ => keeps_pure trivial

lemma keeps_read (hs : s.Careful) (start : σ) (n : Node) :
    Keeps (s.read start n) fun _ => True := by
  refine keeps_visit fun m => ?_
  cases m with
  | mapping line tag entries =>
      have hget : Keeps (get : Decoding Progress) fun _ => True := by
        rintro p a q ⟨⟩
        exact ⟨trivial, rfl, id⟩
      exact hget.bind fun _ _ => (keeps_fill hs _ _ _ _).bind fun _ _ => keeps_pure trivial
  | _ => exact keeps_readNothing

/-! ### What is refused -/

/-- A mapping whose own entries are read into the record leaves a fault if one of them does. -/
theorem refuses_fill (hs : s.Careful) {entries : List (Node × Node)} {e : Node × Node}
    (he : e ∈ entries) (h : ∀ f : Filling σ, f.taken = none → Refuses d (s.entry f e.1 e.2)) :
    ∀ (fuel : Nat) (r : σ), Refuses d (s.fill fuel none entries r)
  | 0, r => refuses_stop
  | fuel + 1, r => by
      by_cases hrepeat : duplicateKeys entries = []
      · rw [fill_succ hrepeat]
        refine (refuses_foldlM (I := fun f => f.taken = none) rfl ?_ he h).bind
          (keeps_takeOver (keeps_fill hs fuel) entries)
        exact fun f hf e _ => (keeps_entry hs f e.1 e.2).weaken fun _ hg => hg hf
      · rw [fill_repeated hrepeat]
        exact (refuses_note hrepeat).bind fun _ => keeps_pure trivial

lemma refuses_read (hs : s.Careful) {n : Node} {line : Nat} {tag : Option String}
    {entries : List (Node × Node)} {e : Node × Node} (hn : Denotes d n (.mapping line tag entries))
    (he : e ∈ entries) (h : ∀ f : Filling σ, f.taken = none → Refuses d (s.entry f e.1 e.2))
    (start : σ) : Refuses d (s.read start n) := by
  refine refuses_visit hn ?_
  have hget : Keeps (get : Decoding Progress) fun _ => True := by
    rintro p a q ⟨⟩
    exact ⟨trivial, rfl, id⟩
  exact hget.bind_refuses fun _ _ => (refuses_fill hs he h _ _).bind fun _ => keeps_pure trivial

/-- What a key is read as decides, where it is one that means something. -/
lemma refuses_entry (hs : s.Careful) {f : Filling σ} {key value n : Node}
    (hentry : isMerge key = false) (hn : Denotes d key n) (hmeans : isNothing n = false)
    (h : ∀ name, keyName? n = some name → Refuses d (s.named f key value (some name))) :
    Refuses d (s.entry f key value) := by
  intro p g q hp hrun
  rw [entry_eq hentry] at hrun
  obtain ⟨name, r, hname, hrun⟩ := bind_run_eq_ok.mp hrun
  have hdoc := (keeps_text _ _ _ hname).2.1
  rcases text_run (hp ▸ hn) hname with ⟨text, rfl, htext⟩ | hnothing | hfaults
  · exact h text htext r g q (hdoc.trans hp) hrun
  · rw [hmeans] at hnothing
    cases hnothing
  · exact (keeps_named hs f key value name r g q hrun).2.2 hfaults

/-- A strict record notes a key that it does not have. -/
lemma refuses_unknown (hs : s.Careful) (hstrict : s.strict = true) {key : Node}
    (h : s.Unknown d key) (value : Node) {f : Filling σ} (hf : f.taken = none) :
    Refuses d (s.entry f key value) := by
  obtain ⟨n, hn, hmeans, hunknown⟩ := h.denotes
  refine refuses_entry hs h.entry hn hmeans fun name hname => ?_
  rw [named, hf, put, hunknown name hname, hstrict]
  exact (refuses_note (by simp)).bind fun _ => keeps_pure trivial

/-- A key whose value leaves a fault, or that stands there a second time. -/
lemma refuses_value (hs : s.Careful) {key value : Node} {name : String} (h : Names d key name)
    {set : Node → σ → Decoding σ} (hset : s.set name = some set)
    (hvalue : ∀ r, Refuses d (set value r)) {f : Filling σ} (hf : f.taken = none) :
    Refuses d (s.entry f key value) := by
  obtain ⟨n, hn, hmeans, hname⟩ := h.denotes
  refine refuses_entry hs h.entry hn hmeans fun name' hname' => ?_
  obtain rfl := Option.some.inj (hname.symm.trans hname')
  simp only [named, hf, put, hset]
  split_ifs
  · exact (refuses_note (by simp)).bind fun _ => keeps_pure trivial
  · exact (hvalue f.record).bind fun _ => keeps_pure trivial

/-- **A strict record refuses a mapping with an unknown key.** -/
theorem refuses_read_unknown (hs : s.Careful) (hstrict : s.strict = true) {n : Node} {line : Nat}
    {tag : Option String} {entries : List (Node × Node)} {key value : Node}
    (hn : Denotes d n (.mapping line tag entries)) (he : (key, value) ∈ entries)
    (h : s.Unknown d key) (start : σ) : Refuses d (s.read start n) :=
  refuses_read hs hn he (fun _ hf => refuses_unknown hs hstrict h value hf) start

/-! ### The records of a configuration -/

/-- A key that puts a value into the record loses no fault if reading the value does not. -/
lemma keeps_field {β : Type} {read : Node → Decoding (Option β)} {put : σ → β → σ}
    (h : ∀ n, Keeps (read n) fun _ => True) {set : Node → σ → Decoding σ}
    (hset : Shape.field read put = some set) (value : Node) (r : σ) :
    Keeps (set value r) fun _ => True := by
  cases hset
  refine (h value).bind fun v _ => ?_
  cases v with
  | none => exact keeps_pure trivial
  | some v => exact keeps_pure trivial

/-- A record refuses a mapping with a value that cannot be read without a fault. -/
theorem refuses_read_field {β : Type} (hs : s.Careful) {n : Node} {line : Nat} {tag : Option String}
    {entries : List (Node × Node)} {key value : Node} (hn : Denotes d n (.mapping line tag entries))
    (he : (key, value) ∈ entries) {name : String} (h : Names d key name)
    {read : Node → Decoding (Option β)} {put : σ → β → σ} (hset : s.set name = Shape.field read put)
    (hvalue : Refuses d (read value)) (start : σ) : Refuses d (s.read start n) := by
  refine refuses_read hs hn he (fun _ hf => refuses_value hs h hset (fun r => ?_) hf) start
  refine hvalue.bind fun v => ?_
  cases v with
  | none => exact keeps_pure trivial
  | some v => exact keeps_pure trivial

end Shape

lemma careful_stateField : StateField.shape.Careful := by
  intro name set hset value r
  simp only [StateField.shape] at hset
  split at hset
  · exact Shape.keeps_field (fun _ => keeps_text) hset value r
  · exact Shape.keeps_field (fun _ => keeps_text) hset value r
  · exact Shape.keeps_field (fun _ => keeps_int) hset value r
  · cases hset

lemma careful_ruleset : Ruleset.shape.Careful := by
  intro name set hset value r
  simp only [Ruleset.shape] at hset
  split at hset
  · exact Shape.keeps_field (fun _ => keeps_list fun _ => keeps_int) hset value r
  · exact Shape.keeps_field (fun _ => keeps_list fun _ => keeps_int) hset value r
  · exact Shape.keeps_field (fun _ => keeps_int) hset value r
  · exact Shape.keeps_field (fun _ => keeps_int) hset value r
  · cases hset

/-- The neighbour counts are read on their own and lose no fault of the parts around them. -/
lemma keeps_readCounts (n : Node) : Keeps (readCounts n) fun _ => True := by
  refine keeps_visit fun m => ?_
  cases m with
  | mapping line tag entries =>
      rintro p a q hrun
      obtain ⟨p', r, hget, hrun⟩ := bind_run_eq_ok.mp hrun
      cases hget
      cases hks : decodeKernels p.document entries with
      | error e =>
          simp only [hks] at hrun
          cases hrun
      | ok ks =>
          simp only [hks] at hrun
          cases hrun
          exact ⟨trivial, rfl, id⟩
  | scalar line tag plain text =>
      dsimp only
      split_ifs
      · exact keeps_scalar fun _ => keeps_pure trivial
      · exact keeps_throw _
  | _ => exact keeps_throw _

lemma careful_config : Config.shape.Careful := by
  intro name set hset value r
  simp only [Config.shape] at hset
  split at hset
  · exact Shape.keeps_field
      (fun _ => keeps_list fun m => Shape.keeps_read careful_stateField _ m) hset value r
  · exact Shape.keeps_field keeps_readCounts hset value r
  · exact Shape.keeps_field (fun _ => keeps_text) hset value r
  · exact Shape.keeps_field (fun _ => keeps_text) hset value r
  · exact Shape.keeps_field (fun m => Shape.keeps_read careful_ruleset _ m) hset value r
  · exact Shape.keeps_field (fun _ => keeps_text) hset value r
  · cases hset

/-! ## Configurations

There are three sorts of strict records in a configuration.
-/

namespace Config

/-- An unknown key in a document: among those of the configuration, of a declared state field, or of
the ruleset. -/
inductive Misspelt (d : Document) : Prop where
  | configuration {line : Nat} {tag : Option String} {entries : List (Node × Node)}
    {key value : Node} (root : Denotes d d.root (.mapping line tag entries))
    (mem : (key, value) ∈ entries) (unknown : Config.shape.Unknown d key)
  | stateField {line line' line'' : Nat} {tag tag' tag'' : Option String}
    {entries entries' : List (Node × Node)} {items : List Node} {key value item key' value' : Node}
    (root : Denotes d d.root (.mapping line tag entries))
    (mem : (key, value) ∈ entries) (name : Names d key "state")
    (list : Denotes d value (.sequence line' tag' items))
    (item_mem : item ∈ items) (field : Denotes d item (.mapping line'' tag'' entries'))
    (key_mem : (key', value') ∈ entries') (unknown : StateField.shape.Unknown d key')
  | ruleset {line line' : Nat} {tag tag' : Option String} {entries entries' : List (Node × Node)}
    {key value key' value' : Node} (root : Denotes d d.root (.mapping line tag entries))
    (mem : (key, value) ∈ entries) (name : Names d key "ruleset")
    (rules : Denotes d value (.mapping line' tag' entries'))
    (key_mem : (key', value') ∈ entries') (unknown : Ruleset.shape.Unknown d key')

/-- **A document with an unknown key leaves a fault.** -/
theorem Misspelt.refuses {d : Document} (h : Misspelt d) :
    Refuses d (Config.shape.read {} d.root) := by
  cases h with
  | configuration root mem unknown =>
      exact Shape.refuses_read_unknown careful_config rfl root mem unknown _
  | stateField root mem name list item_mem field key_mem unknown =>
      refine Shape.refuses_read_field careful_config root mem name rfl ?_ _
      refine refuses_list list item_mem (fun m => Shape.keeps_read careful_stateField _ m) ?_
      exact Shape.refuses_read_unknown careful_stateField rfl field key_mem unknown _
  | ruleset root mem name rules key_mem unknown =>
      refine Shape.refuses_read_field careful_config root mem name rfl ?_ _
      exact Shape.refuses_read_unknown careful_ruleset rfl rules key_mem unknown _

lemma Misspelt.decodeConfig {d : Document} (h : Misspelt d) : ∃ e, decodeConfig d = .error e := by
  rw [Cellular.decodeConfig]
  cases hrun : (Config.shape.read {} d.root).run { document := d } with
  | error e => exact ⟨e, rfl⟩
  | ok result =>
      obtain ⟨c, p⟩ := result
      have hfaults : p.faults ≠ [] := h.refuses _ c p rfl hrun
      refine ⟨.document p.faults, ?_⟩
      dsimp only
      rw [if_neg (by simpa using hfaults)]

/-- **No configuration is read from a document with an unknown key** among those of the
configuration itself, of a declared state field or of the ruleset. -/
theorem parse_misspelt {text : String} {d : Document} (h : Yaml.parse text = some (some d))
    (hd : Misspelt d) (files : FileTexts) (base : String) :
    ∃ e, Config.parse files base text = .error e := by
  obtain ⟨e, he⟩ := hd.decodeConfig
  refine ⟨e, ?_⟩
  unfold Config.parse Config.ofText
  rw [h]
  simp only [he]
  rfl

/-- A declared state field with the key `nam`, in a text. -/
def misspeltText : String := "state:\n- nam: a\n"

/-- The same as a document. -/
def misspeltDocument : Document where
  root := .mapping 1 none [(.scalar 1 none true "state",
    .sequence 2 none [.mapping 2 none [(.scalar 2 none true "nam", .scalar 2 none true "a")]])]
  size := 14

/-- A key of a declared state field that is not one of its own. -/
theorem parse_misspelt_stateField :
    Yaml.parse misspeltText = some (some misspeltDocument) ∧ Misspelt misspeltDocument ∧
      ∃ e, Config.parse (fun path => .error (.missing path)) "" misspeltText = .error e := by
  have hread : Yaml.parse misspeltText = some (some misspeltDocument) := by
    with_unfolding_all rfl
  have hmisspelt : Misspelt misspeltDocument := by
    refine .stateField (.here (by simp [misspeltDocument])) List.mem_cons_self ⟨by decide, ?_⟩
      (.here (by simp)) List.mem_cons_self (.here (by simp)) List.mem_cons_self ⟨by decide, ?_⟩
    · exact ⟨_, .here (by simp), by decide +kernel, rfl⟩
    · refine ⟨_, .here (by simp), by decide +kernel, ?_⟩
      rintro name hname
      obtain rfl : "nam" = name := Option.some.inj hname
      rfl
  exact ⟨hread, hmisspelt, parse_misspelt hread hmisspelt _ _⟩

/-- Kernels are not as strict: one with the key `matrx` in the place of its matrix is read. -/
theorem exists_parse_misspelt_kernel :
    ∃ c, Config.parse (fun path => .error (.missing path)) ""
        "neighbourCounts: \x7bn: \x7bmatrx: [[1]]\x7d\x7d\n" = .ok c ∧
      c.neighbourCounts.map (fun k => (k.name, k.matrix.length)) = [("n", 0)] :=
  exists_ok_of_toOption (by decide +kernel)

end Config

end Cellular
