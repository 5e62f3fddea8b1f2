import Highlight.Proofs.Scan.Lossless

/-!
Tokenizing does not depend on where a text stands. The steps of a scan do not know of it, so that
scans at two places run along together; at each depth they give nodes of the same texts, with
ranges that lie as far apart as the two places (`Grammar.movable_rules`).
-/

namespace Highlight

/-- The second range lies `distance` bytes behind the first one. -/
structure TextRange.Shifted (distance : Nat) (range shifted : TextRange) : Prop where
  start : shifted.start.toNat = distance + range.start.toNat
  stop : shifted.stop.toNat = distance + range.stop.toNat

/-- The same nodes at all depths, with ranges `distance` bytes further on. -/
inductive Node.Shifted (distance : Nat) : List Node → List Node → Prop
  | nil : Node.Shifted distance [] []
  | literal {text : String} {range shifted : TextRange} {nodes others : List Node}
      (range_shifted : range.Shifted distance shifted) (rest : Node.Shifted distance nodes others) :
      Node.Shifted distance (.literal text range :: nodes) (.literal text shifted :: others)
  | matched {name text : String} {label : Option String} {range shifted : TextRange}
      {children others nodes rest : List Node} (range_shifted : range.Shifted distance shifted)
      (children_shifted : Node.Shifted distance children others)
      (rest_shifted : Node.Shifted distance nodes rest) :
      Node.Shifted distance (.matched ⟨name, label, text, range, children⟩ :: nodes)
        (.matched ⟨name, label, text, shifted, others⟩ :: rest)

theorem Node.Shifted.append {distance : Nat} {front back others rest : List Node}
    (h : Node.Shifted distance front others) (h' : Node.Shifted distance back rest) :
    Node.Shifted distance (front ++ back) (others ++ rest) := by
  induction h with
  | nil => exact h'
  | literal hrange _ ih => exact .literal hrange ih
  | matched hrange hchildren _ _ ih => exact .matched hrange hchildren ih

/-- A way to tokenize that gives shifted nodes for the same text further on. -/
def Tokenizer.Movable (tokenize : Tokenizer) : Prop :=
  ∀ base distance text nodes moved, base + distance + Text.width text < UInt32.size →
    tokenize base text = .ok nodes → tokenize (base + distance) text = .ok moved →
    Node.Shifted distance nodes moved

def Rule.Movable (rule : Rule) : Prop :=
  ∀ tokenize, rule.inside = some tokenize → tokenize.Movable

namespace Forest

section

variable {base distance start stop : Nat}

theorem ends_of_rangeAt_eq_ok {range : TextRange} (hle : start ≤ stop)
    (hlt : base + stop < UInt32.size) (h : rangeAt base start stop = .ok range) :
    range.start.toNat = base + start ∧ range.stop.toNat = base + stop := by
  obtain ⟨range', hrange, hends⟩ := exists_rangeAt hle hlt
  rw [h] at hrange
  cases hrange
  exact hends

theorem shifted_rangeAt {range shifted : TextRange} (hle : start ≤ stop)
    (hlt : base + distance + stop < UInt32.size) (h : rangeAt base start stop = .ok range)
    (h' : rangeAt (base + distance) start stop = .ok shifted) : range.Shifted distance shifted := by
  obtain ⟨hstart, hstop⟩ := ends_of_rangeAt_eq_ok hle (by omega) h
  obtain ⟨hstart', hstop'⟩ := ends_of_rangeAt_eq_ok hle hlt h'
  exact ⟨by omega, by omega⟩

namespace Run

variable {run run' run'' : Run}

/-- What a run takes in does not depend on where its text stands. -/
theorem eq_of_extend_eq_ok_of_extend_eq_ok (h : run.extend base stop = .ok run')
    (h' : run.extend (base + distance) stop = .ok run'') : run'' = run' := by
  rcases eq_of_extend_eq_ok h with ⟨heq, rfl⟩ | ⟨front, range, hne, hread, -, hfirst, htext⟩
  · rcases eq_of_extend_eq_ok h' with ⟨-, rfl⟩ | ⟨_, _, hne, -⟩
    · rfl
    · exact absurd heq hne
  · rcases eq_of_extend_eq_ok h' with ⟨heq, -⟩ | ⟨front', range', -, hread', -, hfirst', htext'⟩
    · exact absurd heq hne
    · rw [hread] at hread'
      obtain ⟨rfl, hplace⟩ := Prod.mk.inj (Option.some.inj hread')
      obtain ⟨first, text, place⟩ := run'
      obtain ⟨first', text', place'⟩ := run''
      simp only at hfirst htext hplace hfirst' htext'
      rw [hfirst, htext, hplace, hfirst', htext']

theorem shifted_literal (h : run.Sound)
    (hlt : base + distance + Text.width run.place.text < UInt32.size) {nodes moved : List Node}
    (hliteral : run.literal base = .ok nodes)
    (hmoved : run.literal (base + distance) = .ok moved) : Node.Shifted distance nodes moved := by
  have hlt' : base + Text.width run.place.text < UInt32.size := by omega
  rcases literal_cases h hlt' with ⟨hnil, hok⟩ | ⟨range, hrange, hok⟩
  · rcases literal_cases h hlt with ⟨-, hok'⟩ | ⟨_, hrange', -⟩
    · cases hok.symm.trans hliteral
      cases hok'.symm.trans hmoved
      exact .nil
    · exact absurd hnil hrange'.text_ne_nil
  · rcases literal_cases h hlt with ⟨hnil, -⟩ | ⟨shifted, hrange', hok'⟩
    · exact absurd hnil hrange.text_ne_nil
    · cases hok.symm.trans hliteral
      cases hok'.symm.trans hmoved
      have hstart := hrange.start
      have hstop := hrange.stop
      have hstart' := hrange'.start
      have hstop' := hrange'.stop
      exact .literal ⟨by omega, by omega⟩ .nil

end Run

/-- The tokens of one hit at two places. -/
theorem shifted_token {rule : Rule} {hit : Hit} {c d e : Cursor} {node moved : Node}
    (hrule : rule.Movable) (hoffset : c.offset = hit.contextEnd)
    (hlt : base + distance + Text.width c.text < UInt32.size)
    (h : token base rule hit c = .ok (node, d))
    (h' : token (base + distance) rule hit c = .ok (moved, e)) :
    e = d ∧ Node.Shifted distance [node] [moved] := by
  obtain ⟨text, matched, rfl, hread, htoken⟩ := exists_tokenOf_of_token_eq_ok h
  obtain ⟨text', matched', rfl, hread', htoken'⟩ := exists_tokenOf_of_token_eq_ok h'
  rw [hread] at hread'
  cases hread'
  have hstop := (Cursor.boundary_of_readTo? hread).add_lt hlt
  have hwidth := Cursor.offset_add_width_of_readTo? hread
  have hranges := shifted_rangeAt hit.contextEnd_le_stop hstop htoken.range_eq htoken'.range_eq
  have hchildren : Node.Shifted distance matched.children matched'.children := by
    cases hinside : rule.inside with
    | none =>
        rw [htoken.childless hinside, htoken'.childless hinside]
        exact .nil
    | some tokenize =>
        have hothers := htoken'.children_eq tokenize hinside
        rw [Nat.add_right_comm] at hothers
        exact hrule tokenize hinside _ _ _ _ _ (by omega) (htoken.children_eq tokenize hinside)
          hothers
  have hname : matched'.name = matched.name := htoken'.name_eq.trans htoken.name_eq.symm
  have hlabel : matched'.label = matched.label := htoken'.label_eq.trans htoken.label_eq.symm
  have htext : matched'.text = matched.text := htoken'.text_eq.trans htoken.text_eq.symm
  cases matched
  cases matched'
  simp only at hname hlabel htext
  subst hname hlabel htext
  exact ⟨rfl, .matched hranges hchildren .nil⟩

theorem shifted_build {rules : List Rule} {c d : Cursor} {steps : List Step} {run : Run}
    {nodes moved : List Node} (hrules : ∀ rule ∈ rules, rule.Movable) (hpath : Path rules c steps d)
    (hlt : base + distance + Text.width c.text < UInt32.size) (hsound : run.Sound)
    (hplace : run.place = c) (h : build base run steps = .ok nodes)
    (h' : build (base + distance) run steps = .ok moved) : Node.Shifted distance nodes moved := by
  -- Along the path both scans have the same run, as a run knows only of places in its own text.
  induction hpath generalizing run nodes moved with
  | nil c =>
      subst hplace
      exact Run.shifted_literal hsound hlt h h'
  | @skip c d e char steps hnext hrest ih =>
      subst hplace
      obtain ⟨run', hextend, hbuild⟩ := exists_of_bind_eq_ok h
      obtain ⟨run'', hextend', hbuild'⟩ := exists_of_bind_eq_ok h'
      cases Run.eq_of_extend_eq_ok_of_extend_eq_ok hextend hextend'
      obtain ⟨hsound', -⟩ := hsound.extend hextend
      have htext : d.text = run.place.text := Cursor.text_eq_of_le (Cursor.le_of_next? hnext)
      exact ih (htext ▸ hlt) hsound' (hsound.place_of_extend_next hnext hextend) hbuild hbuild'
  | @take c d e rule hit steps hmem hspans hrest ih =>
      subst hplace
      obtain ⟨run', before, node, place, after, hextend, hbefore, htoken, hafter, rfl⟩ :=
        exists_of_build_take h
      obtain ⟨run'', before', node', place', after', hextend', hbefore', htoken', hafter', rfl⟩ :=
        exists_of_build_take h'
      cases Run.eq_of_extend_eq_ok_of_extend_eq_ok hextend hextend'
      obtain ⟨hsound', -, hle, hoffset⟩ := hsound.extend hextend
      have htext : run'.place.text = run.place.text := Cursor.text_eq_of_le hle
      obtain ⟨hplace, htokens⟩ :=
        shifted_token (hrules rule hmem) hoffset (htext ▸ hlt) htoken htoken'
      obtain ⟨text, hread⟩ := hsound.exists_readTo?_of_extend_spans hspans hextend
      obtain ⟨matched, -, hd⟩ := eq_matched_of_token_eq_ok hread htoken
      subst hplace
      subst hd
      have htext' : place'.text = run.place.text := Cursor.text_eq_of_le hspans.le
      have hliteral := Run.shifted_literal hsound' (htext ▸ hlt) hbefore hbefore'
      have hrest := ih (htext' ▸ hlt) (Run.sound_start place') rfl hafter hafter'
      exact hliteral.append (htokens.append hrest)

end

theorem movable_ofRules {rules : List Rule} (hsound : ∀ rule ∈ rules, rule.Sound)
    (hrules : ∀ rule ∈ rules, rule.Movable) : Tokenizer.Movable (ofRules rules) := by
  intro base distance text nodes moved hlt h h'
  obtain ⟨steps, d, hsteps, hpath, -⟩ := Scan.exists_steps hsound text
  exact shifted_build hrules hpath (by rwa [Cursor.start_text]) (Run.sound_start _) rfl
    (build_of_steps hsteps h) (build_of_steps hsteps h')

end Forest

theorem Grammar.movable_rules [Regex.Searcher] [Regex.LawfulSearcher] (g : Grammar) :
    Tokenizer.Movable (Forest.ofRules g.rules) := by
  induction g using inside_induction with
  | step g ih =>
      apply Forest.movable_ofRules
      · intro rule hrule
        exact sound_of_mem_rules hrule
      · intro rule hrule tokenize hinside
        obtain ⟨token, htoken, pattern, hpattern, rfl⟩ := mem_rules_iff.mp hrule
        rw [Pattern.rule_inside] at hinside
        obtain ⟨h, hh, rfl⟩ := Option.map_eq_some_iff.mp hinside
        exact ih token htoken pattern hpattern h hh

end Highlight
