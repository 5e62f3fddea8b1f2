import Highlight.Proofs.Grammar.Nesting
import Highlight.Scan.Tokenize

/-!
Scanning without memory. At each place every rule is searched afresh, and the first one with a
hit right there takes it. Nodes are added one by one; literal text goes to the literal before it.
-/

namespace Highlight

namespace Plain

/-- The hit of a rule right at a place, if it leaves text for a token, and the place behind
it. -/
def hitAt? (rule : Rule) (c : Cursor) : Option (Hit × Cursor) :=
  match rule.find c with
  | none => none
  | some hit =>
      if hit.start = c.offset ∧ hit.emits then
        (c.readTo? hit.stop).map fun (_, d) => (hit, d)
      else none

theorem hitAt?_eq_some_iff {rule : Rule} {c d : Cursor} {hit : Hit} :
    hitAt? rule c = some (hit, d) ↔
      rule.find c = some hit ∧ (hit.start = c.offset ∧ hit.emits) ∧
        ∃ front, c.readTo? hit.stop = some (front, d) := by
  unfold hitAt?
  constructor
  · intro h
    split at h
    next => simp at h
    next found hfind =>
      split at h
      next hcond =>
        obtain ⟨⟨front, e⟩, hread, heq⟩ := Option.map_eq_some_iff.mp h
        cases heq
        exact ⟨hfind, hcond, front, hread⟩
      next => simp at h
  · rintro ⟨hfind, hcond, front, hread⟩
    simp only [hfind, if_pos hcond, hread, Option.map_some]

theorem length_after_hitAt? {rule : Rule} {c d : Cursor} {hit : Hit}
    (h : hitAt? rule c = some (hit, d)) : d.after.length < c.after.length := by
  obtain ⟨-, ⟨hstart, hemits⟩, front, hread⟩ := hitAt?_eq_some_iff.mp h
  have hlt := Hit.emits_iff.mp hemits
  have hle := hit.start_le_contextEnd
  exact Cursor.length_after_readTo? hread (by omega)

/-- The hits of a rule right at a place, and the place behind the last one: one hit, or those
that follow one right behind the other if the rule is global. -/
def hits (rule : Rule) (c : Cursor) : List Hit × Cursor :=
  match _h : hitAt? rule c with
  | none => ([], c)
  | some (hit, d) =>
      if rule.global then
        let (rest, e) := hits rule d
        (hit :: rest, e)
      else ([hit], d)
termination_by c.after.length
decreasing_by exact length_after_hitAt? ‹_›

theorem hits_of_hitAt?_eq_none {rule : Rule} {c : Cursor} (h : hitAt? rule c = none) :
    hits rule c = ([], c) := by
  rw [hits]
  split <;> simp_all

theorem hits_of_hitAt?_eq_some {rule : Rule} {c d : Cursor} {hit : Hit}
    (h : hitAt? rule c = some (hit, d)) :
    hits rule c =
      if rule.global then (hit :: (hits rule d).1, (hits rule d).2) else ([hit], d) := by
  rw [hits]
  split
  next hnone => simp [h] at hnone
  next found e hsome =>
    rw [h] at hsome
    cases hsome
    rfl

theorem length_after_hits_le (rule : Rule) (c : Cursor) :
    (hits rule c).2.after.length ≤ c.after.length := by
  fun_induction hits rule c with
  | case1 => exact Nat.le_refl _
  | case2 c hit d hhit hglobal rest e hrest ih =>
      rw [hrest] at ih
      exact Nat.le_trans ih (Nat.le_of_lt (length_after_hitAt? hhit))
  | case3 c hit d hhit hglobal => exact Nat.le_of_lt (length_after_hitAt? hhit)

theorem length_after_hits_lt {rule : Rule} {c : Cursor} (h : (hits rule c).1 ≠ []) :
    (hits rule c).2.after.length < c.after.length := by
  rw [hits] at h ⊢
  split at h
  next => exact absurd rfl h
  next hit d hhit =>
    split
    · exact Nat.lt_of_le_of_lt (length_after_hits_le rule d) (length_after_hitAt? hhit)
    · exact length_after_hitAt? hhit

/-- The first rule with hits right at a place, with these hits and the place behind them. -/
def firstAt? (rules : List Rule) (c : Cursor) : Option (Rule × List Hit × Cursor) :=
  rules.findSome? fun rule =>
    match hits rule c with
    | ([], _) => none
    | (hit :: rest, d) => some (rule, hit :: rest, d)

theorem firstAt?_cons_of_nil {rule : Rule} {rules : List Rule} {c d : Cursor}
    (h : hits rule c = ([], d)) : firstAt? (rule :: rules) c = firstAt? rules c := by
  simp only [firstAt?, List.findSome?_cons, h]

theorem firstAt?_cons_of_cons {rule : Rule} {rules : List Rule} {c d : Cursor} {hit : Hit}
    {rest : List Hit} (h : hits rule c = (hit :: rest, d)) :
    firstAt? (rule :: rules) c = some (rule, hit :: rest, d) := by
  simp only [firstAt?, List.findSome?_cons, h]

theorem hits_of_firstAt? {rules : List Rule} {c d : Cursor} {rule : Rule} {found : List Hit}
    (h : firstAt? rules c = some (rule, found, d)) :
    hits rule c = (found, d) ∧ found ≠ [] := by
  obtain ⟨rule', -, hrule⟩ := List.exists_of_findSome?_eq_some h
  split at hrule
  next => simp at hrule
  next hit rest e hhits =>
    cases hrule
    exact ⟨hhits, by simp⟩

theorem length_after_firstAt? {rules : List Rule} {c d : Cursor} {rule : Rule}
    {found : List Hit} (h : firstAt? rules c = some (rule, found, d)) :
    d.after.length < c.after.length := by
  obtain ⟨hhits, hne⟩ := hits_of_firstAt? h
  have hlt : (hits rule c).2.after.length < c.after.length :=
    length_after_hits_lt (by rw [hhits]; exact hne)
  rwa [hhits] at hlt

def steps (rules : List Rule) (c : Cursor) : List Step :=
  match _hnext : c.next? with
  | none => []
  | some (_, d) =>
      match _hfirst : firstAt? rules c with
      | some (rule, found, e) => found.map (.take rule) ++ steps rules e
      | none => .skip d.offset :: steps rules d
termination_by c.after.length
decreasing_by
  · exact length_after_firstAt? ‹_›
  · exact Cursor.length_after_next? ‹_›

theorem steps_of_next?_eq_none {rules : List Rule} {c : Cursor} (h : c.next? = none) :
    steps rules c = [] := by
  rw [steps]
  split <;> simp_all

theorem steps_of_firstAt?_eq_none {rules : List Rule} {c d : Cursor} {char : Char}
    (hnext : c.next? = some (char, d)) (hfirst : firstAt? rules c = none) :
    steps rules c = .skip d.offset :: steps rules d := by
  rw [steps]
  split
  next hnone => simp [hnext] at hnone
  next char' d' hsome =>
    rw [hnext] at hsome
    cases hsome
    split <;> simp_all

theorem steps_of_firstAt?_eq_some {rules : List Rule} {c d e : Cursor} {char : Char} {rule : Rule}
    {found : List Hit} (hnext : c.next? = some (char, d))
    (hfirst : firstAt? rules c = some (rule, found, e)) :
    steps rules c = found.map (.take rule) ++ steps rules e := by
  rw [steps]
  split
  next hnone => simp [hnext] at hnone
  next =>
    split
    next rule' found' e' hsome =>
      rw [hfirst] at hsome
      cases hsome
      rfl
    next hnone => simp [hfirst] at hnone

/-- Add literal text to nodes, newest first. A literal right before it takes it in. -/
def addLiteral (base start stop : Nat) (text : List Char) :
    List Node → Except Fault (List Node)
  | .literal before range :: nodes => do
      let range ← Forest.rangeAt 0 range.start.toNat (base + stop)
      return .literal (before ++ String.ofList text) range :: nodes
  | nodes => do
      let range ← Forest.rangeAt base start stop
      return .literal (String.ofList text) range :: nodes

/-- Add the text from a place up to an offset, if there is any, and go to that offset. -/
def addText (base stop : Nat) (c : Cursor) (nodes : List Node) :
    Except Fault (List Node × Cursor) :=
  if stop = c.offset then
    .ok (nodes, c)
  else
    match c.readTo? stop with
    | none => .error .cut
    | some (text, d) => do return (← addLiteral base c.offset stop text nodes, d)

/-- Add the nodes for steps from a place on to nodes, newest first. A hit adds its context as
text and then its token. -/
def addAll (base : Nat) : Cursor → List Node → List Step → Except Fault (List Node)
  | _, nodes, [] => .ok nodes
  | c, nodes, .skip stop :: rest => do
      let (nodes, c) ← addText base stop c nodes
      addAll base c nodes rest
  | c, nodes, .take rule hit :: rest => do
      let (nodes, c) ← addText base hit.contextEnd c nodes
      let (node, c) ← Forest.token base rule hit c
      addAll base c (node :: nodes) rest

def ofRules (rules : List Rule) : Tokenizer := fun base text => do
  return (← addAll base (.start text) [] (steps rules (.start text))).reverse

end Plain

namespace Grammar

variable [Regex.Searcher]

end Grammar

end Highlight
