import Highlight.Proofs.Failure
import Highlight.Proofs.Scan.Path
import Highlight.Scan.Forest

/-!
Runs of literal text, and the tokens that end them. With offsets that fit in 32 bits nothing fails,
and each part has the range that its place in the text gives it.
-/

namespace Highlight.Forest

theorem exists_rangeAt {base start stop : Nat} (hle : start ≤ stop)
    (hlt : base + stop < UInt32.size) :
    ∃ range, rangeAt base start stop = .ok range ∧ range.start.toNat = base + start ∧
      range.stop.toNat = base + stop := by
  have hle' : base + start ≤ base + stop := by omega
  obtain ⟨range, hrange, hstart, hstop⟩ := TextRange.ofOffsets?_eq_some_of_lt hle' hlt
  exact ⟨range, by rw [rangeAt, hrange], hstart, hstop⟩

namespace Run

/-- The text of a run stands between its first place and the place reached. -/
structure Sound (run : Run) : Prop where
  after : run.first.after = run.text.reverse ++ run.place.after
  before : run.place.before = run.text ++ run.first.before

variable {run run' : Run} {base stop : Nat}

theorem sound_start (c : Cursor) : (start c).Sound :=
  ⟨rfl, rfl⟩

theorem Sound.le (h : run.Sound) : run.first ≤ run.place :=
  ⟨run.text.reverse, h.after, by rw [List.reverse_reverse, h.before]⟩

theorem Sound.offset_eq (h : run.Sound) :
    run.place.offset = run.first.offset + Text.width run.text.reverse :=
  Cursor.offset_eq_of_append (by rw [List.reverse_reverse, h.before])

theorem eq_of_extend_eq_ok (h : run.extend base stop = .ok run') :
    (stop = run.place.offset ∧ run' = run) ∨
      ∃ front range, stop ≠ run.place.offset ∧
        run.place.readTo? stop = some (front, run'.place) ∧
        rangeAt base run.first.offset stop = .ok range ∧ run'.first = run.first ∧
        run'.text = front.reverse ++ run.text := by
  by_cases heq : stop = run.place.offset
  · simp only [extend, if_pos heq] at h
    cases h
    exact .inl ⟨heq, rfl⟩
  · simp only [extend, if_neg heq] at h
    split at h
    next => cases h
    next front place hread =>
      obtain ⟨range, hrange, heq'⟩ := exists_of_bind_eq_ok h
      cases heq'
      exact .inr ⟨front, range, heq, hread, hrange, rfl, rfl⟩

theorem Sound.extend (h : run.Sound) (hextend : run.extend base stop = .ok run') :
    run'.Sound ∧ run'.first = run.first ∧ run.place ≤ run'.place ∧ run'.place.offset = stop := by
  rcases eq_of_extend_eq_ok hextend with ⟨rfl, rfl⟩ | ⟨front, range, -, hread, -, hfirst, htext⟩
  · exact ⟨h, rfl, Cursor.le_refl _, rfl⟩
  · obtain ⟨hafter, hbefore, hoffset⟩ := Cursor.readTo?_eq_some_iff.mp hread
    refine ⟨⟨?_, ?_⟩, hfirst, Cursor.le_of_readTo? hread, hoffset⟩
    · rw [hfirst, h.after, hafter, htext]
      simp
    · rw [hfirst, hbefore, h.before, htext]
      simp

/-- A run that takes in a skipped character comes to the place behind it. -/
theorem Sound.place_of_extend_next (h : run.Sound) {char : Char} {d : Cursor}
    (hnext : run.place.next? = some (char, d)) (hextend : run.extend base d.offset = .ok run') :
    run'.place = d := by
  obtain ⟨-, -, hle, hoffset⟩ := h.extend hextend
  have htext : d.text = run.place.text := Cursor.text_eq_of_le (Cursor.le_of_next? hnext)
  exact Cursor.eq_of_text_eq ((Cursor.text_eq_of_le hle).trans htext.symm) hoffset

/-- A run that takes in the context of a hit comes to where its token is read. -/
theorem Sound.exists_readTo?_of_extend_spans (h : run.Sound) {hit : Hit} {d : Cursor}
    (hspans : hit.Spans run.place d) (hextend : run.extend base hit.contextEnd = .ok run') :
    ∃ text, run'.place.readTo? hit.stop = some (text, d) := by
  obtain ⟨-, -, hle, hoffset⟩ := h.extend hextend
  obtain ⟨context, place, text, hcontext, hread⟩ := hspans.exists_readTo?
  have htext : place.text = run.place.text := Cursor.text_eq_of_le (Cursor.le_of_readTo? hcontext)
  have hplace : place = run'.place :=
    Cursor.eq_of_text_eq (htext.trans (Cursor.text_eq_of_le hle).symm)
      ((Cursor.offset_of_readTo? hcontext).trans hoffset.symm)
  exact ⟨text, hplace ▸ hread⟩

theorem exists_extend (h : run.Sound) (hle : run.place.offset ≤ stop)
    (hboundary : Text.Boundary run.place.text stop)
    (hlt : base + Text.width run.place.text < UInt32.size) :
    ∃ run', run.extend base stop = .ok run' := by
  by_cases heq : stop = run.place.offset
  · exact ⟨run, by simp only [extend, if_pos heq]; rfl⟩
  · obtain ⟨front, place, hread⟩ := Cursor.exists_readTo?_iff.mpr ⟨hle, hboundary⟩
    have hfirst : run.first.offset ≤ stop := Nat.le_trans (Cursor.offset_le_of_le h.le) hle
    obtain ⟨range, hrange, -⟩ := exists_rangeAt hfirst (hboundary.add_lt hlt)
    refine ⟨{ run with text := front.reverse ++ run.text, place := place }, ?_⟩
    simp only [extend, if_neg heq, hread, hrange]
    rfl

/-- A run that makes a literal, of the range between its places. -/
structure IsLiteral (run : Run) (base : Nat) (range : TextRange) : Prop where
  text_ne_nil : run.text ≠ []
  start : range.start.toNat = base + run.first.offset
  stop : range.stop.toNat = base + run.place.offset

theorem literal_cases (h : run.Sound) (hlt : base + Text.width run.place.text < UInt32.size) :
    (run.text = [] ∧ run.literal base = .ok []) ∨
      ∃ range, run.IsLiteral base range ∧
        run.literal base = .ok [.literal (String.ofList run.text.reverse) range] := by
  by_cases hnil : run.text = []
  · exact .inl ⟨hnil, by simp only [literal, hnil]; rfl⟩
  · have hfits : base + run.place.offset < UInt32.size :=
      (Cursor.boundary_offset rfl).add_lt hlt
    obtain ⟨range, hrange, hstart, hstop⟩ := exists_rangeAt (Cursor.offset_le_of_le h.le) hfits
    refine .inr ⟨range, ⟨hnil, hstart, hstop⟩, ?_⟩
    simp only [literal, List.isEmpty_iff, hnil, hrange]
    rfl

theorem exists_literal (h : run.Sound) (hlt : base + Text.width run.place.text < UInt32.size) :
    ∃ nodes, run.literal base = .ok nodes := by
  rcases literal_cases h hlt with ⟨-, hok⟩ | ⟨range, -, hok⟩
  · exact ⟨_, hok⟩
  · exact ⟨_, hok⟩

theorem isLiteral_of_literal {nodes : List Node} (h : run.literal base = .ok nodes) :
    ∀ node ∈ nodes, node.isLiteral = true := by
  unfold literal at h
  split at h
  next =>
    cases h
    simp
  next =>
    obtain ⟨range, -, heq⟩ := exists_of_bind_eq_ok h
    cases heq
    simp [Node.isLiteral]

theorem reverse_literal (h : run.Sound) (hlt : base + Text.width run.place.text < UInt32.size)
    {nodes : List Node} (hliteral : run.literal base = .ok nodes) : nodes.reverse = nodes := by
  rcases literal_cases h hlt with ⟨-, hok⟩ | ⟨range, -, hok⟩
  · rw [hok] at hliteral
    cases hliteral
    rfl
  · rw [hok] at hliteral
    cases hliteral
    rfl

end Run

/-- What the token of a hit is made of, if the hit leaves it a text. -/
structure TokenOf (base : Nat) (rule : Rule) (hit : Hit) (text : List Char) (matched : Matched) :
    Prop where
  name_eq : matched.name = rule.token
  label_eq : matched.label = rule.label
  text_eq : matched.text = String.ofList text
  range_eq : rangeAt base hit.contextEnd hit.stop = .ok matched.range
  children_eq : ∀ tokenize, rule.inside = some tokenize →
    tokenize (base + hit.contextEnd) text = .ok matched.children
  childless : rule.inside = none → matched.children = []

theorem exists_tokenOf_of_token_eq_ok {base : Nat} {rule : Rule} {hit : Hit} {c d : Cursor}
    {node : Node} (h : token base rule hit c = .ok (node, d)) :
    ∃ text matched, node = .matched matched ∧ c.readTo? hit.stop = some (text, d) ∧
      TokenOf base rule hit text matched := by
  unfold token at h
  split at h
  next => cases h
  next text place hread =>
    split at h
    next tokenize hinside =>
      obtain ⟨children, hchildren, h⟩ := exists_of_bind_eq_ok h
      obtain ⟨range, hrange, heq⟩ := exists_of_bind_eq_ok h
      cases heq
      refine ⟨text, _, rfl, hread, rfl, rfl, rfl, hrange, ?_, by simp [hinside]⟩
      intro _ hsome
      cases hinside.symm.trans hsome
      exact hchildren
    next hinside =>
      obtain ⟨children, hchildren, h⟩ := exists_of_bind_eq_ok h
      obtain ⟨range, hrange, heq⟩ := exists_of_bind_eq_ok h
      cases heq
      cases hchildren
      exact ⟨text, _, rfl, hread, rfl, rfl, rfl, hrange, by simp [hinside], fun _ => rfl⟩

theorem eq_matched_of_token_eq_ok {base : Nat} {rule : Rule} {hit : Hit} {c d e : Cursor}
    {text : List Char} {node : Node} (hread : c.readTo? hit.stop = some (text, d))
    (h : token base rule hit c = .ok (node, e)) : ∃ matched, node = .matched matched ∧ e = d := by
  obtain ⟨text', matched, rfl, hread', -⟩ := exists_tokenOf_of_token_eq_ok h
  rw [hread] at hread'
  cases hread'
  exact ⟨matched, rfl, rfl⟩

/-- What a hit comes to: the literal before it, its token, and the nodes from the end of the token
on. -/
theorem exists_of_build_take {base : Nat} {run : Run} {rule : Rule} {hit : Hit} {rest : List Step}
    {nodes : List Node} (h : build base run (.take rule hit :: rest) = .ok nodes) :
    ∃ run' before node place after, run.extend base hit.contextEnd = .ok run' ∧
      run'.literal base = .ok before ∧ token base rule hit run'.place = .ok (node, place) ∧
      build base (.start place) rest = .ok after ∧ nodes = before ++ node :: after := by
  rw [build] at h
  obtain ⟨run', hextend, h⟩ := exists_of_bind_eq_ok h
  obtain ⟨before, hbefore, h⟩ := exists_of_bind_eq_ok h
  obtain ⟨⟨node, place⟩, htoken, h⟩ := exists_of_bind_eq_ok h
  obtain ⟨after, hafter, heq⟩ := exists_of_bind_eq_ok h
  cases heq
  exact ⟨run', before, node, place, after, hextend, hbefore, htoken, hafter, rfl⟩

theorem build_of_steps {rules : List Rule} {base : Nat} {text : List Char} {steps : List Step}
    {nodes : List Node} (hsteps : Scan.steps rules text = .ok steps)
    (hnodes : ofRules rules base text = .ok nodes) :
    build base (.start (.start text)) steps = .ok nodes := by
  rwa [ofRules, hsteps] at hnodes

end Highlight.Forest
