import Cellular.Proofs.Yaml.Scalars
import Cellular.Yaml.Node
import Mathlib.Logic.Relation

/-!
# Splitting written documents

The scanner gives tokens away as soon as it can, and inserts the mark of a key before tokens that it
keeps for that.  Outside brackets neither matters for the tokens in the end: what matters is what
the scanner knows at the start of a token.

* `View` is what the scanner knows there, and `Scanner.At` says that it does.
* `View.Step` is one token; `View.Steps.exists_run`: a run follows the steps.
* `Scanner.Drained.run` is about the end of the text.
* `scan_of_steps`: a text is split into the tokens that are read one after the other.

The state of the scanner is richer than what matters here: it counts tokens that were given away,
keeps possible keys for every level of brackets, and closes blocks late.  `View` has what decides
about the next token, and `Scanner.At` relates a state to a view, however far the scanner has got
with white space, keys and closed blocks.  A step is stated between views; for a state it holds by
this relation.  That tokens are given away in between changes nothing that is seen, and so a run of
the scanner is a sequence of steps.
-/

namespace Cellular.Yaml

/-! ## Places of tokens

A possible key is kept until the next token shows whether a colon follows.
-/

/-- White space leads from a place to the next token: blanks, or a line break and blanks.  `crossed`
says whether it is a line break. -/
inductive Point.ComesTo : Bool → Point → Point → Prop
  | blanks {r : List Char} {i ln c : Nat} (n : Nat) (hr : Fresh r) :
      ComesTo false ⟨List.replicate n ' ' ++ r, i, ln, c⟩ ⟨r, i + n, ln, c + n⟩
  | line {r : List Char} {i ln c : Nat} (n : Nat) (hr : Fresh r) :
      ComesTo true ⟨'\n' :: (List.replicate n ' ' ++ r), i, ln, c⟩ ⟨r, i + 1 + n, ln + 1, n⟩

lemma Point.ComesTo.le {p q : Point} {crossed : Bool} (h : p.ComesTo crossed q) :
    p.line ≤ q.line ∧ p.index ≤ q.index := by
  cases h with
  | blanks n hr => simp
  | line n hr =>
      simp
      omega

lemma Point.ComesTo.rest_le {p q : Point} {crossed : Bool} (h : p.ComesTo crossed q) :
    q.rest.length ≤ p.rest.length := by
  cases h <;> (simp; try omega)

/-- What the scanner knows at the start of a token, outside brackets.  The key is one that still
waits for its colon. -/
structure View where
  point : Point
  tokens : List Token
  indent : Int
  outer : List Int
  keyAllowed : Bool := true
  key : Option PossibleKey := none

namespace Scanner

variable {r : List Char} {i ln c n : Nat} {s t : Scanner} {crossed : Bool} {q : Point}
  {k : PossibleKey}

/-- The state of a possible key: it waits for its colon in this line, or it is none any more. -/
def Awaits (s : Scanner) (p : Point) (k : PossibleKey) : Option PossibleKey → Prop
  | none => k.possible = true → k.required = false ∧ k.line < p.line
  | some k' => k = k' ∧ k.possible = true ∧ s.given ≤ k.number ∧
      (s.waiting.lookup k.number).isSome = true ∧ k.line = p.line ∧ p.index ≤ k.index + 1024

/-- The scanner is on its way to the token that is seen, and knows no more than is seen. -/
structure At (s : Scanner) (v : View) : Prop where
  margin : s.margin = 0
  given : s.given ≤ s.tokens.size
  comes : ∃ crossed, s.point.ComesTo crossed v.point ∧ v.keyAllowed = (s.keyAllowed || crossed)
  closes : closeBlocks v.point.column s.outer s.indent s.tokens v.point.line
    = (v.outer, v.indent, v.tokens.toArray)
  key : ∃ k, s.keys = [k] ∧ s.Awaits v.point k v.key

lemma flow_eq_zero (hk : s.keys = [k]) : s.flow = 0 := by
  rw [flow, hk]
  rfl

lemma getElem?_keys (hk : s.keys = [k]) (depth : Nat) : s.keys[s.flow - depth]? = some k := by
  rw [flow_eq_zero hk, hk, Nat.zero_sub]
  rfl

lemma set_keys {k' : PossibleKey} (hk : s.keys = [k]) (depth : Nat) :
    s.keys.set (s.flow - depth) k' = [k'] := by
  rw [flow_eq_zero hk, hk, Nat.zero_sub]
  rfl

lemma inFlow_eq_false (hk : s.keys = [k]) : s.inFlow = false := by
  simp [inFlow, flow_eq_zero hk]

/-! ## White space

A line break allows a key on the next line.
-/

lemma skipSpace_blanks (fuel : Nat) (hr : Fresh r) (hmargin : s.margin = 0)
    (hpoint : s.point = ⟨List.replicate n ' ' ++ r, i, ln, c⟩) :
    skipSpace (fuel + 1) s = { s with point := ⟨r, i + n, ln, c + n⟩ } := by
  have hmany : (⟨List.replicate n ' ' ++ r, i, ln, c⟩ : Point).skipMany n
      = ⟨r, i + n, ln, c + n⟩ := by
    simp [Point.skipMany]
  have htake := hr.takeWhile (n := n)
    (p := fun c => decide (c = ' ') || ((s.inFlow || !s.keyAllowed) && decide (c = '\t')))
    (by simp) (fun c hc => by
      simp only [isGapChar]
      simp only [Bool.or_eq_true, Bool.and_eq_true] at hc ⊢
      tauto)
  rw [skipSpace]
  simp only [skipMargin, hmargin, Nat.lt_irrefl, decide_false, Bool.and_false, Bool.false_and,
    Bool.false_eq_true, if_false, hpoint, htake, List.length_replicate, hmany, hr.startsWith,
    hr.atBreak]

/-- **White space before a token is passed over.** -/
lemma skipSpace_of_comesTo (hmargin : s.margin = 0) (hk : s.keys = [k])
    (h : s.point.ComesTo crossed q) :
    skipSpace (s.point.rest.length + 1) s
      = { s with point := q, keyAllowed := s.keyAllowed || crossed } := by
  cases hpoint : s.point with
  | mk rest i ln c =>
  rw [hpoint] at h
  cases h with
  | blanks n hr => rw [skipSpace_blanks _ hr hmargin hpoint, Bool.or_false]
  | @line r _ _ _ n hr =>
      have htake : ('\n' :: (List.replicate n ' ' ++ r)).takeWhile
          (fun c => decide (c = ' ') || ((s.inFlow || !s.keyAllowed) && decide (c = '\t')))
            = [] := by
        simp
      have hbreak : isBreak '\n' = true := rfl
      have hmark : decide ('\n' = '#') = false := rfl
      have hnext := skipSpace_blanks (List.replicate n ' ' ++ r).length (s := { s with
        point := ⟨List.replicate n ' ' ++ r, i + 1, ln + 1, 0⟩
        keyAllowed := s.keyAllowed || true }) hr hmargin rfl
      rw [List.length_cons, skipSpace]
      simp only [skipMargin, hmargin, Nat.lt_irrefl, decide_false, Bool.and_false, Bool.false_and,
        Bool.false_eq_true, if_false, hpoint, htake]
      simp only [List.length_nil, Point.skipMany, List.drop_zero, Nat.add_zero,
        Point.startsWith_cons, hmark, Bool.false_eq_true, if_false, Point.atBreak_cons, hbreak,
        if_true, inFlow_eq_false hk, Bool.not_false]
      simpa [Point.skipBreak, hbreak, hmargin] using hnext

/-! ## Towards a token

Before a token is read, white space is skipped, stale keys are dropped and blocks are closed.
-/

/-- The scanner that has come to the token that is seen. -/
def arrived (s : Scanner) (v : View) : Scanner :=
  { s with
    point := v.point, tokens := v.tokens.toArray, indent := v.indent, outer := v.outer,
    keyAllowed := v.keyAllowed }

/-- Reads the token at the present place, or the end of the text. -/
def read (s : Scanner) : Parsed Scanner :=
  match s.point.rest with
  | [] => s.textEnd
  | c :: cs => s.token c cs

/-- **The scanner comes to the token that is seen.** -/
lemma At.fetch {v : View} (h : s.At v) : s.fetch = (s.arrived v).read := by
  obtain ⟨k, hk, -⟩ := h.key
  obtain ⟨crossed, hcomes, hallowed⟩ := h.comes
  have harrived : (closeTo { s with point := v.point, keyAllowed := s.keyAllowed || crossed }
      v.point.column) = s.arrived v := by
    have hflow : inFlow { s with point := v.point, keyAllowed := s.keyAllowed || crossed }
        = false := inFlow_eq_false hk
    rw [closeTo, hflow, if_neg Bool.false_ne_true]
    simp only [h.closes, arrived, hallowed]
  have hmargin : (if (s.arrived v).margin < (s.arrived v).point.index + 4 then
      { s.arrived v with margin := 0 } else s.arrived v) = s.arrived v := by
    have hzero : (s.arrived v).margin = 0 := h.margin
    cases hs : s.arrived v
    simp_all
  unfold Scanner.fetch
  simp only [skipSpace_of_comesTo h.margin hk hcomes, harrived, hmargin]
  rfl

/-! ## Giving tokens away

A token is given away unless it may still become a key.
-/

/-- Closing blocks only adds their ends. -/
lemma exists_closeBlocks_tokens (column : Int) :
    ∀ (outer : List Int) (indent : Int) (ts : Array Token) (line : Nat),
      ∃ ends : List Token, (closeBlocks column outer indent ts line).2.2 = ts ++ ends.toArray ∧
        (∀ u ∈ ends, u.mark = .blockEnd) ∧
        ends.length + (closeBlocks column outer indent ts line).1.length ≤ outer.length + 1
  | [], indent, ts, line => by
      rw [closeBlocks]
      split
      · exact ⟨[⟨.blockEnd, line + 1⟩], by simp, by simp, by simp⟩
      · exact ⟨[], by simp, by simp, by simp⟩
  | up :: outer, indent, ts, line => by
      rw [closeBlocks]
      split
      · obtain ⟨ends, hends, hmarks, hlength⟩ := exists_closeBlocks_tokens column outer up
          (ts.push ⟨.blockEnd, line + 1⟩) line
        refine ⟨⟨.blockEnd, line + 1⟩ :: ends, by simp [hends], by simpa using hmarks, ?_⟩
        rw [List.length_cons, List.length_cons]
        omega
      · exact ⟨[], by simp, by simp, by simp⟩

/-- A possible key that is judged on the way to a token is one that is awaited there, or it is none
there any more. -/
lemma Awaits.exists_judge {key : Option PossibleKey} (h : s.Awaits q k key)
    (hcomes : s.point.ComesTo crossed q) :
    ∃ b k', s.judge k = some (b, k') ∧ (b = true → k' = k) ∧
      (b = false → key = none ∧ k'.possible = false) := by
  obtain ⟨hline, hindex⟩ := hcomes.le
  rw [judge]
  cases key with
  | none =>
      cases hp : k.possible with
      | false => exact ⟨false, k, by simp, nofun, fun _ => ⟨rfl, hp⟩⟩
      | true =>
          rw [if_neg (by simp)]
          split
          · exact ⟨false, { k with possible := false }, by simp [(h hp).1], nofun,
              fun _ => ⟨rfl, rfl⟩⟩
          · exact ⟨true, k, rfl, fun _ => rfl, nofun⟩
  | some k' =>
      obtain ⟨rfl, hp, -, -, hk, hreach⟩ := h
      refine ⟨true, k, ?_, fun _ => rfl, nofun⟩
      rw [if_neg (by simp [hp]), if_neg (by simp; omega)]

lemma Awaits.of_not_possible (hk : k.possible = false) : s.Awaits q k none := by
  simp [Awaits, hk]

/-- **Giving a token away changes nothing of what is seen.** -/
lemma At.settle {v : View} (h : s.At v) :
    ∃ b k, s.settle = some (b, { s with keys := [k] }) ∧ At { s with keys := [k] } v ∧
      (b = true → s.given < s.tokens.size ∧ At { s with keys := [k], given := s.given + 1 } v) := by
  obtain ⟨k, hk, hawaits⟩ := h.key
  obtain ⟨crossed, hcomes, hallowed⟩ := h.comes
  have hsame : { s with keys := [k] } = s := by rw [← hk]
  -- a token that is given away is none before which a key is awaited
  have hgive : ∀ {k'}, s.given < s.tokens.size → s.Awaits v.point k' v.key →
      (v.key ≠ none → k'.number ≠ s.given) →
      At { s with keys := [k'], given := s.given + 1 } v := by
    intro k' hsize hawaits hnumber
    refine ⟨h.margin, hsize, h.comes, h.closes, k', rfl, ?_⟩
    cases hkey : v.key with
    | none => rwa [hkey] at hawaits
    | some key =>
        rw [hkey] at hawaits hnumber
        obtain ⟨rfl, hp, hgiven, hrest⟩ := hawaits
        have := hnumber (by simp)
        exact ⟨rfl, hp, by show s.given + 1 ≤ _; omega, hrest⟩
  unfold Scanner.settle
  split
  · exact ⟨false, k, by rw [hsame], by rwa [hsame], nofun⟩
  · rename_i hsize
    split
    · rename_i hnone
      refine ⟨true, k, by rw [hsame], by rwa [hsame], fun _ => ⟨by omega, ?_⟩⟩
      refine hgive (by omega) hawaits fun hkey hnumber => ?_
      cases hkey' : v.key with
      | none => exact hkey hkey'
      | some key =>
          rw [hkey'] at hawaits
          obtain ⟨rfl, -, -, hwaits, -⟩ := hawaits
          rw [hnumber, hnone] at hwaits
          exact nomatch hwaits
    · obtain ⟨b, k', hjudge, hvalid, hexpired⟩ := hawaits.exists_judge hcomes
      simp only [getElem?_keys hk, hjudge, set_keys hk, Option.map_some]
      cases b with
      | true =>
          obtain rfl := hvalid rfl
          exact ⟨false, k', rfl, by rwa [hsame], nofun⟩
      | false =>
          obtain ⟨hkey, hp⟩ := hexpired rfl
          refine ⟨true, k', rfl, ⟨h.margin, h.given, h.comes, h.closes, k', rfl, ?_⟩,
            fun _ => ⟨by omega, hgive (by omega) ?_ fun hne => absurd hkey hne⟩⟩
          · rw [hkey]
            exact .of_not_possible hp
          · rw [hkey]
            exact .of_not_possible hp

/-! ## Runs

A run gives tokens away until one has to be read.  Its fuel is measured by the text and the tokens.
-/

lemma At.mem_tokens {v : View} (h : s.At v) {u : Token} (hu : u ∈ s.tokens) : u ∈ v.tokens := by
  obtain ⟨ends, hends, -⟩ := exists_closeBlocks_tokens v.point.column s.outer s.indent s.tokens
    v.point.line
  have htokens : v.tokens.toArray = s.tokens ++ ends.toArray := by
    rw [← hends, h.closes]
  rw [← List.mem_toArray, htokens]
  exact Array.mem_append_left _ hu

section Run

variable {fuel : Nat} {s' : Scanner}

/-- One round of a run: a token that is settled is given away, and without one the next token is
read.  Behind the round goes on what `more` says. -/
def round (more : Scanner → List Token) (s : Scanner) : List Token :=
  match s.settle with
  | none => s.tokens.toList.take s.given
  | some (true, s) =>
      if s.tokens[s.given]?.any (·.mark = .textEnd) then s.tokens.toList.take (s.given + 1)
      else more { s with given := s.given + 1 }
  | some (false, s) =>
      match s.fetch with
      | none => s.tokens.toList.take s.given
      | some t => more t

/-- A run goes round by round. -/
lemma run_succ : run (fuel + 1) s = s.round (run fuel) := by
  -- equations of `run` by themselves are slow to come by, since its cases look into the scanner
  with_unfolding_all rfl

lemma run_of_fetch (hsettle : s.settle = some (false, s')) (hfetch : s'.fetch = some t) :
    run (fuel + 1) s = run fuel t := by
  rw [run_succ, round, hsettle]
  simp only [hfetch]

lemma run_of_give (hsettle : s.settle = some (true, s'))
    (hmark : (s'.tokens[s'.given]?.any fun u => decide (u.mark = .textEnd)) = false) :
    run (fuel + 1) s = run fuel { s' with given := s'.given + 1 } := by
  rw [run_succ, round, hsettle]
  simp only [hmark, Bool.false_eq_true, if_false]

lemma run_of_end (hsettle : s.settle = some (true, s'))
    (hmark : (s'.tokens[s'.given]?.any fun u => decide (u.mark = .textEnd)) = true) :
    run (fuel + 1) s = s'.tokens.toList.take (s'.given + 1) := by
  rw [run_succ, round, hsettle]
  simp only [hmark, if_true]

end Run

/-- **A run comes to read the token that is seen**, giving away others before. -/
lemma At.exists_run {v : View} {Q : Scanner → Prop} (hmarks : ∀ u ∈ v.tokens, u.mark ≠ .textEnd)
    (hfetch : ∀ s : Scanner, s.At v → ∃ t, s.fetch = some t ∧ Q t ∧ t.given = s.given)
    {s : Scanner} (h : s.At v) :
    ∃ t steps, Q t ∧ (∀ fuel, run (fuel + steps) s = run fuel t) ∧
      steps + s.given = t.given + 1 := by
  obtain ⟨b, k, hsettle, hat, hgive⟩ := h.settle
  cases b with
  | false =>
      obtain ⟨t, ht, hq, hgiven⟩ := hfetch _ hat
      refine ⟨t, 1, hq, fun fuel => run_of_fetch hsettle ht, ?_⟩
      rw [hgiven]
      exact Nat.add_comm ..
  | true =>
      obtain ⟨hsize, hat'⟩ := hgive rfl
      obtain ⟨t, steps, hq, hrun, hsteps⟩ := hat'.exists_run hmarks hfetch
      have hmark : (s.tokens[s.given]?.any fun u => decide (u.mark = .textEnd)) = false := by
        rw [Array.getElem?_eq_getElem hsize]
        simpa using hmarks _ (h.mem_tokens (Array.getElem_mem hsize))
      refine ⟨t, steps + 1, hq, fun fuel => ?_, ?_⟩
      · rw [← Nat.add_assoc, run_of_give hsettle hmark]
        exact hrun fuel
      · simp only at hsteps
        omega
termination_by s.tokens.size - s.given

end Scanner

/-! ## Steps

The sizes in a step bound how many tokens there can be in the end, and so the fuel of a run.
-/

/-- The scanner reads the token that is seen in one place, and then it sees the next one. -/
structure View.Step (v w : View) : Prop where
  fetch : ∀ s : Scanner, s.At v → ∃ t, s.fetch = some t ∧ t.At w ∧ t.given = s.given
  rest : w.point.rest.length < v.point.rest.length
  size : w.tokens.length + w.outer.length ≤ v.tokens.length + v.outer.length + 4
  marks : (∀ u ∈ v.tokens, u.mark ≠ .textEnd) → ∀ u ∈ w.tokens, u.mark ≠ .textEnd

/-- Tokens that are read one after the other. -/
abbrev View.Steps : View → View → Prop := Relation.ReflTransGen View.Step

/-- **A run follows the tokens that are read.** -/
lemma View.Steps.exists_run {v w : View} (hsteps : v.Steps w)
    (hmarks : ∀ u ∈ v.tokens, u.mark ≠ .textEnd) {s : Scanner} (h : s.At v) :
    ∃ t steps, t.At w ∧ (∀ fuel, Scanner.run (fuel + steps) s = Scanner.run fuel t) ∧
      steps + s.given + w.point.rest.length ≤ t.given + v.point.rest.length := by
  induction hsteps using Relation.ReflTransGen.head_induction_on generalizing s with
  | refl => exact ⟨s, 0, h, fun _ => rfl, by omega⟩
  | head hstep _ ih =>
      obtain ⟨t, steps, hat, hrun, hgiven⟩ := h.exists_run hmarks hstep.fetch
      obtain ⟨u, steps', hat', hrun', hgiven'⟩ := ih (hstep.marks hmarks) hat
      have hrest := hstep.rest
      refine ⟨u, steps' + steps, hat', fun fuel => ?_, by omega⟩
      rw [← Nat.add_assoc, hrun, hrun']

lemma View.Steps.size {v w : View} (hsteps : v.Steps w) :
    w.tokens.length + w.outer.length + 4 * w.point.rest.length
      ≤ v.tokens.length + v.outer.length + 4 * v.point.rest.length := by
  induction hsteps with
  | refl => exact Nat.le_refl _
  | tail _ hstep ih =>
      have hrest := hstep.rest
      have hsize := hstep.size
      omega

lemma View.Steps.marks {v w : View} (hsteps : v.Steps w)
    (hmarks : ∀ u ∈ v.tokens, u.mark ≠ .textEnd) : ∀ u ∈ w.tokens, u.mark ≠ .textEnd := by
  induction hsteps with
  | refl => exact hmarks
  | tail _ hstep ih => exact hstep.marks ih

/-! ## The end of the text

At the end all blocks are closed, and the scanner may be asked for more tokens than there are.
-/

/-- All tokens were read, and `ends` tokens for the end of the text. -/
structure Scanner.Drained (s : Scanner) (all : List Token) (line ends : Nat) : Prop where
  point : s.point.rest = [] ∧ s.point.line = line ∧ s.point.column = 0
  margin : s.margin = 0
  indent : s.indent ≤ -1
  key : ∃ k, s.keys = [k] ∧ k.possible = false
  tokens : s.tokens = (all ++ List.replicate ends (⟨.textEnd, line + 1⟩ : Token)).toArray
  given : s.given ≤ all.length

/-- The tokens of a view and the ends of the blocks that are open there. -/
def View.allTokens (v : View) : List Token :=
  (Scanner.closeBlocks (-1) v.outer v.indent v.tokens.toArray v.point.line).2.2.toList

lemma View.exists_allTokens (v : View) :
    ∃ ends, v.allTokens = v.tokens ++ ends ∧ (∀ u ∈ ends, u.mark = .blockEnd) ∧
      ends.length ≤ v.outer.length + 1 := by
  obtain ⟨ends, hends, hmarks, hlength⟩ := Scanner.exists_closeBlocks_tokens (-1) v.outer v.indent
    v.tokens.toArray v.point.line
  exact ⟨ends, by rw [allTokens, hends]; simp, hmarks, (Nat.le_add_right _ _).trans hlength⟩

namespace Scanner

variable {s t : Scanner} {all : List Token} {line ends : Nat}

lemma closeBlocks_indent {column : Int} (hcolumn : -1 ≤ column) :
    ∀ {outer : List Int} {indent : Int} {ts : Array Token} {line : Nat},
      (closeBlocks column outer indent ts line).2.1 ≤ column
  | [], indent, ts, line => by
      rw [closeBlocks]
      split
      · exact hcolumn
      · exact Int.not_lt.mp ‹_›
  | up :: outer, indent, ts, line => by
      rw [closeBlocks]
      split
      · exact closeBlocks_indent hcolumn
      · exact Int.not_lt.mp ‹_›

/-- Where no block is indented by more there is nothing to close. -/
lemma closeBlocks_of_le {column indent : Int} (h : indent ≤ column) {outer : List Int}
    {ts : Array Token} {line : Nat} :
    closeBlocks column outer indent ts line = (outer, indent, ts) := by
  cases outer <;> rw [closeBlocks, if_neg (Int.not_lt.mpr h)]

/-- A key that does not have to be one is given up. -/
lemma exists_dropKey {k : PossibleKey} (hk : s.keys = [k])
    (h : k.possible = true → k.required = false) :
    ∃ k' waiting, s.dropKey = some { s with keys := [k'], waiting } ∧ k'.possible = false := by
  have hkey : s.key = k := by rw [key, hk]; rfl
  rw [dropKey]
  simp only [hkey]
  cases hp : k.possible with
  | false => exact ⟨k, s.waiting, by simp [← hk], hp⟩
  | true =>
      refine ⟨{ k with possible := false }, s.waiting.filter (·.1 ≠ k.number), ?_, rfl⟩
      simp [h hp, setKey, hk, release]

lemma At.given_le {v : View} (h : s.At v) : s.given ≤ v.tokens.length := by
  obtain ⟨ends, hends, -⟩ := exists_closeBlocks_tokens v.point.column s.outer s.indent s.tokens
    v.point.line
  have hsize := congrArg Array.size hends
  rw [h.closes] at hsize
  have hgiven := h.given
  simp only [List.size_toArray, Array.size_append] at hsize
  omega

/-- **The end of the text is read**, and the blocks that are open there are closed. -/
lemma At.fetch_end {v : View} (h : s.At v) (hrest : v.point.rest = [])
    (hcolumn : v.point.column = 0) (hkey : v.key = none) :
    ∃ t, s.fetch = some t ∧ t.Drained v.allTokens v.point.line 1 ∧ t.given = s.given := by
  obtain ⟨k, hk, hawaits⟩ := h.key
  rw [hkey] at hawaits
  have hclose : (s.arrived v).closeTo (-1) = { s.arrived v with
      outer := (closeBlocks (-1) v.outer v.indent v.tokens.toArray v.point.line).1
      indent := (closeBlocks (-1) v.outer v.indent v.tokens.toArray v.point.line).2.1
      tokens := v.allTokens.toArray } := by
    rw [closeTo, inFlow_eq_false (s := s.arrived v) hk, if_neg Bool.false_ne_true]
    rfl
  obtain ⟨k', waiting, hdrop, hk'⟩ := exists_dropKey (s := (s.arrived v).closeTo (-1)) (k := k)
    (by rw [hclose]; exact hk) (fun hp => (hawaits hp).1)
  have hend : (s.arrived v).textEnd = some ({ (s.arrived v).closeTo (-1) with
      keys := [k'], waiting, keyAllowed := false }.push .textEnd) := by
    have hpoint : (s.arrived v).point.column = 0 := hcolumn
    rw [textEnd]
    simp only [hpoint, if_true, boundary, hdrop]
    rfl
  have hread : (s.arrived v).read = (s.arrived v).textEnd := by
    have hnil : (s.arrived v).point.rest = [] := hrest
    rw [read, hnil]
  obtain ⟨closing, hclosing, -⟩ := v.exists_allTokens
  refine ⟨_, by rw [h.fetch, hread, hend], ?_, by rw [hclose]; rfl⟩
  rw [hclose]
  exact {
    point := ⟨hrest, rfl, hcolumn⟩
    margin := h.margin
    indent := closeBlocks_indent (Int.le_refl _)
    key := ⟨k', rfl, hk'⟩
    tokens := by simp [push, arrived]
    given := by
      rw [hclosing, List.length_append]
      exact h.given_le.trans (Nat.le_add_right ..) }

/-- A scanner that is at the end sees that it is. -/
lemma Drained.at (h : s.Drained all line ends) :
    s.At ⟨s.point, all ++ List.replicate ends ⟨.textEnd, line + 1⟩, s.indent, s.outer,
      s.keyAllowed, none⟩ := by
  obtain ⟨k, hk, hp⟩ := h.key
  obtain ⟨hrest, hline, hcolumn⟩ := h.point
  refine ⟨h.margin, ?_, ⟨false, ?_, by simp⟩, ?_, k, hk, .of_not_possible hp⟩
  · have hgiven := h.given
    rw [h.tokens]
    simp
    omega
  · cases hpoint : s.point with
    | mk rest i ln c =>
        obtain rfl : rest = [] := by simpa [hpoint] using hrest
        exact Point.ComesTo.blanks 0 .nil
  · have hindent := h.indent
    rw [closeBlocks_of_le (by simp only [hcolumn]; omega), h.tokens]

lemma Drained.fetch (h : s.Drained all line ends) :
    ∃ t, s.fetch = some t ∧ t.Drained all line (ends + 1) ∧ t.given = s.given := by
  obtain ⟨t, hfetch, hdrained, hgiven⟩ := h.at.fetch_end h.point.1 h.point.2.2 rfl
  have htokens : View.allTokens ⟨s.point, all ++ List.replicate ends ⟨.textEnd, line + 1⟩, s.indent,
      s.outer, s.keyAllowed, none⟩ = all ++ List.replicate ends ⟨.textEnd, line + 1⟩ := by
    rw [View.allTokens, closeBlocks_of_le h.indent]
  rw [htokens] at hdrained
  obtain ⟨hpoint, hmargin, hindent, hkey, htokens', -⟩ := hdrained
  refine ⟨t, hfetch, ⟨⟨hpoint.1, hpoint.2.1.trans h.point.2.1, hpoint.2.2⟩, hmargin, hindent, hkey,
    ?_, hgiven ▸ h.given⟩, hgiven⟩
  rw [htokens', h.point.2.1, List.append_assoc, ← List.replicate_add]

lemma Drained.settle (h : s.Drained all line ends) :
    s.settle = some (decide (s.given + 2 < s.tokens.size), s) := by
  obtain ⟨k, hk, hp⟩ := h.key
  have hset : ∀ depth, { s with keys := s.keys.set (s.flow - depth) k } = s := by
    intro depth
    rw [set_keys hk]
    exact congrArg (fun keys => { s with keys := keys }) hk.symm
  unfold Scanner.settle
  by_cases hsize : s.tokens.size ≤ s.given + 2
  · rw [if_pos hsize, decide_eq_false (Nat.not_lt.mpr hsize)]
  · rw [if_neg hsize, decide_eq_true (Nat.not_le.mp hsize)]
    split
    · rfl
    · simp [getElem?_keys hk, judge, hp, hset]

/-- **At the end a run gives all tokens away, and one for the end of the text.** -/
lemma Drained.run (hmarks : ∀ u ∈ all, u.mark ≠ .textEnd) :
    ∀ {fuel ends : Nat} {s : Scanner}, s.Drained all line ends →
      all.length - s.given + (3 - ends) < fuel → run fuel s = all ++ [⟨.textEnd, line + 1⟩]
  | fuel + 1, ends, s, h, hfuel => by
      have hsettle := h.settle
      have hgiven := h.given
      have hlength : s.tokens.size = all.length + ends := by rw [h.tokens]; simp
      by_cases hsize : s.given + 2 < s.tokens.size
      · rw [decide_eq_true hsize] at hsettle
        by_cases hlast : s.given = all.length
        · obtain ⟨ends, rfl⟩ : ∃ e, ends = e + 1 := ⟨ends - 1, by omega⟩
          have hend : (s.tokens[s.given]?.any fun u => decide (u.mark = .textEnd)) = true := by
            rw [h.tokens, hlast]
            simp [List.replicate_succ]
          rw [run_of_end hsettle hend, h.tokens, hlast, List.replicate_succ,
            List.take_length_add_append]
          rfl
        · have hmark : (s.tokens[s.given]?.any fun u => decide (u.mark = .textEnd)) = false := by
            have hlt : s.given < all.length := by omega
            rw [h.tokens]
            simpa [List.getElem?_append_left hlt, List.getElem?_eq_getElem hlt]
              using hmarks _ (List.getElem_mem hlt)
          rw [run_of_give hsettle hmark]
          exact Drained.run hmarks (s := { s with given := s.given + 1 })
            ⟨h.point, h.margin, h.indent, h.key, h.tokens, by show s.given + 1 ≤ _; omega⟩
            (by show all.length - (s.given + 1) + _ < _; omega)
      · rw [decide_eq_false hsize] at hsettle
        obtain ⟨t, hfetch, ht, htgiven⟩ := h.fetch
        rw [run_of_fetch hsettle hfetch]
        exact ht.run hmarks (by rw [htgiven]; omega)

end Scanner

/-- What is seen at the start of a text. -/
def View.start (text : List Char) : View := ⟨⟨text, 0, 0, 0⟩, [⟨.textStart, 1⟩], -1, [], true, none⟩

/-- **A text is split into the tokens that are read from it one after the other.** -/
theorem scan_of_steps {text : List Char} (hfresh : Fresh text)
    (hallowed : ∀ c ∈ text, isAllowed c = true) (hmark : text.head? ≠ some byteOrderMark) {v : View}
    (hsteps : (View.start text).Steps v) (hrest : v.point.rest = []) (hcolumn : v.point.column = 0)
    (hkey : v.key = none) :
    scan text = v.allTokens ++ [⟨.textEnd, v.point.line + 1⟩] := by
  have hstart : Scanner.At { point := ⟨text, 0, 0, 0⟩ } (View.start text) :=
    ⟨rfl, Nat.zero_le _, ⟨false, Point.ComesTo.blanks 0 hfresh, rfl⟩,
      Scanner.closeBlocks_of_le (by simp), _, rfl, .of_not_possible rfl⟩
  have hmarks : ∀ u ∈ (View.start text).tokens, u.mark ≠ .textEnd := by
    simp [View.start]
  obtain ⟨closing, hclosing, hends, hcount⟩ := v.exists_allTokens
  have hall : ∀ u ∈ v.allTokens, u.mark ≠ .textEnd := by
    intro u hu
    rw [hclosing, List.mem_append] at hu
    rcases hu with hu | hu
    · exact hsteps.marks hmarks u hu
    · simp [hends u hu]
  obtain ⟨t, steps, hat, hrun, hbound⟩ := hsteps.exists_run hmarks hstart
  obtain ⟨t', steps', hdrained, hrun', hbound'⟩ := hat.exists_run (hsteps.marks hmarks)
    (fun s h => h.fetch_end hrest hcolumn hkey)
  have hlength : v.allTokens.length ≤ 4 * text.length + 2 := by
    have hsize := hsteps.size
    simp only [View.start, List.length_cons, List.length_nil] at hsize
    rw [hclosing, List.length_append]
    omega
  have hbody : text.all isAllowed = true := List.all_eq_true.mpr hallowed
  have hgiven := hdrained.given
  simp only [View.start, hrest, List.length_nil] at hbound
  obtain ⟨fuel, hfuel⟩ : ∃ fuel, 8 * text.length + 64 = fuel + steps' + steps :=
    ⟨8 * text.length + 64 - steps - steps', by omega⟩
  have hscan : scan text = Scanner.run (8 * text.length + 64) { point := ⟨text, 0, 0, 0⟩ } := by
    rw [scan]
    simp [hmark, hbody]
  rw [hscan, hfuel, hrun, hrun', hdrained.run hall (by omega)]

end Cellular.Yaml
