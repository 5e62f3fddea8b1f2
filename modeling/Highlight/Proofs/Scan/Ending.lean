import Highlight.Proofs.Scan.Pieces

/-!
How the nodes of a text end. The last step makes the last node: a character that is skipped is the
end of a literal (`exists_literal_of_build_skip`), and a hit is a token
(`exists_matched_of_build_take`).
-/

namespace Highlight

/-- Ranges that follow one another end with the last one. -/
theorem TextRange.Tile.stop_of_getLast? {start stop : Nat} {ranges : List TextRange}
    {range : TextRange} (h : Tile start ranges stop) (hlast : ranges.getLast? = some range) :
    range.stop.toNat = stop := by
  induction ranges generalizing start with
  | nil => cases hlast
  | cons first rest ih =>
      obtain ⟨-, hrest⟩ := h
      cases rest with
      | nil =>
          cases hlast
          exact hrest
      | cons second rest => exact ih hrest (by rwa [List.getLast?_cons_cons] at hlast)

namespace Forest

variable {rules : List Rule} {base : Nat} {c d e : Cursor} {front rest : List Step} {run : Run}
  {nodes : List Node}

/-- The nodes for steps from a place on come behind others for the steps that lead there. -/
theorem exists_of_build_append (hpath : Path rules c front d) (hsound : run.Sound)
    (hplace : run.place = c) (h : build base run (front ++ rest) = .ok nodes) :
    ∃ run' before after, run'.Sound ∧ run'.place = d ∧ build base run' rest = .ok after ∧
      nodes = before ++ after := by
  induction hpath generalizing run nodes with
  | nil c => exact ⟨run, [], nodes, hsound, hplace, h, rfl⟩
  | @skip c d e char steps hnext _ ih =>
      subst hplace
      obtain ⟨run', hextend, hbuild⟩ := exists_of_bind_eq_ok h
      obtain ⟨hsound', -⟩ := hsound.extend hextend
      exact ih hsound' (hsound.place_of_extend_next hnext hextend) hbuild
  | @take c d e rule hit steps _ hspans _ ih =>
      subst hplace
      obtain ⟨run', literals, node, place, after, hextend, -, htoken, hafter, rfl⟩ :=
        exists_of_build_take h
      obtain ⟨text, matched, rfl, hread, -⟩ := exists_tokenOf_of_token_eq_ok htoken
      obtain ⟨text', hread'⟩ := hsound.exists_readTo?_of_extend_spans hspans hextend
      cases hread.symm.trans hread'
      obtain ⟨run'', before, after, hsound', hplace, hbuild, rfl⟩ :=
        ih (Run.sound_start d) rfl hafter
      exact ⟨run'', literals ++ .matched matched :: before, after, hsound', hplace, hbuild,
        by simp⟩

/-- A hit that comes last makes the last node, of the text behind its context. -/
theorem exists_matched_of_build_take {rule : Rule} {hit : Hit} (hpath : Path rules c front d)
    (hsound : run.Sound) (hplace : run.place = c) (hspans : hit.Spans d e)
    (h : build base run (front ++ [.take rule hit]) = .ok nodes) :
    ∃ place text matched, d ≤ place ∧ place.offset = hit.contextEnd ∧ place.Reads text e ∧
      TokenOf base rule hit text matched ∧ nodes.getLast? = some (.matched matched) := by
  obtain ⟨run', others, last, hsound', rfl, hlast, rfl⟩ :=
    exists_of_build_append hpath hsound hplace h
  obtain ⟨run'', literals, node, place, after, hextend, -, htoken, hafter, rfl⟩ :=
    exists_of_build_take hlast
  obtain ⟨-, -, hle, hoffset⟩ := hsound'.extend hextend
  obtain ⟨text, matched, rfl, hread, hmade⟩ := exists_tokenOf_of_token_eq_ok htoken
  obtain ⟨text', hread'⟩ := hsound'.exists_readTo?_of_extend_spans hspans hextend
  cases hread.symm.trans hread'
  obtain ⟨hreads, hbefore, -⟩ := Cursor.readTo?_eq_some_iff.mp hread
  -- The run behind the token takes nothing in.
  cases hafter
  exact ⟨run''.place, text, matched, hle, hoffset, ⟨hreads, hbefore⟩, hmade, by simp⟩

/-- A character that is skipped at the end of a text is part of a literal. -/
theorem exists_literal_of_build_skip {char : Char} (hpath : Path rules c front d)
    (hsound : run.Sound) (hplace : run.place = c) (hnext : d.next? = some (char, e))
    (hlt : base + Text.width d.text < UInt32.size)
    (h : build base run (front ++ [.skip e.offset]) = .ok nodes) :
    ∃ text range, nodes.getLast? = some (.literal text range) := by
  obtain ⟨run', others, last, hsound', rfl, hlast, rfl⟩ :=
    exists_of_build_append hpath hsound hplace h
  obtain ⟨run'', hextend, hliteral⟩ := exists_of_bind_eq_ok hlast
  obtain ⟨hsound'', -, hle, -⟩ := hsound'.extend hextend
  have htext : run''.place.text = run'.place.text := Cursor.text_eq_of_le hle
  have hliteral : run''.literal base = .ok last := hliteral
  rcases Run.literal_cases hsound'' (htext ▸ hlt) with ⟨hnil, -⟩ | ⟨range, -, hok⟩
  · rcases Run.eq_of_extend_eq_ok hextend with ⟨heq, -⟩ | ⟨text, _, -, hread, -, -, htaken⟩
    · exact absurd heq (Nat.ne_of_gt (Cursor.offset_lt_of_next? hnext))
    · have hreads := Cursor.reads_single_iff.mpr hnext
      rw [hreads.readTo?] at hread
      cases hread
      rw [htaken] at hnil
      cases hnil
  · cases hliteral.symm.trans hok
    exact ⟨String.ofList run''.text.reverse, range, by simp⟩

end Forest

namespace Plain

variable {rules : List Rule} {c d : Cursor}

theorem le_of_hitAt? {rule : Rule} {hit : Hit} (h : hitAt? rule c = some (hit, d)) : c ≤ d := by
  obtain ⟨-, -, front, hread⟩ := hitAt?_eq_some_iff.mp h
  exact Cursor.le_of_readTo? hread

theorem le_hits (rule : Rule) (c : Cursor) : c ≤ (hits rule c).2 := by
  fun_induction hits rule c with
  | case1 => exact Cursor.le_refl _
  | case2 c hit d hhit hglobal rest e hrest ih =>
      rw [hrest] at ih
      exact Cursor.le_trans (le_of_hitAt? hhit) ih
  | case3 c hit d hhit => exact le_of_hitAt? hhit

theorem exists_of_mem_hits {rule : Rule} {hit : Hit} (h : hit ∈ (hits rule c).1) :
    ∃ d e, c ≤ d ∧ hitAt? rule d = some (hit, e) := by
  fun_induction hits rule c with
  | case1 => cases h
  | case2 c first d hhit hglobal rest e hrest ih =>
      rw [hrest] at ih
      rcases List.mem_cons.mp h with rfl | h
      · exact ⟨c, d, Cursor.le_refl c, hhit⟩
      · obtain ⟨place, behind, hle, hfound⟩ := ih h
        exact ⟨place, behind, Cursor.le_trans (le_of_hitAt? hhit) hle, hfound⟩
  | case3 c first d hhit =>
      obtain rfl := List.mem_singleton.mp h
      exact ⟨c, d, Cursor.le_refl c, hhit⟩

theorem mem_of_firstAt? {rule : Rule} {found : List Hit}
    (h : firstAt? rules c = some (rule, found, d)) : rule ∈ rules := by
  obtain ⟨rule', hmem, hrule⟩ := List.exists_of_findSome?_eq_some h
  split at hrule
  next => cases hrule
  next =>
    cases hrule
    exact hmem

/-- All hits that a scan takes are found at some place on its way. -/
theorem exists_of_mem_takes {take : Rule × Hit} (h : take ∈ Step.takes (steps rules c)) :
    take.1 ∈ rules ∧ ∃ d e, c ≤ d ∧ hitAt? take.1 d = some (take.2, e) := by
  fun_induction steps rules c with
  | case1 => cases h
  | case2 c char next hnext rule found e hfirst ih =>
      have hhits := (hits_of_firstAt? hfirst).1
      rw [Step.takes_append] at h
      rcases List.mem_append.mp h with h | h
      · obtain ⟨step, hstep, heq⟩ := List.mem_filterMap.mp h
        obtain ⟨hit, hmem, rfl⟩ := List.mem_map.mp hstep
        cases heq
        exact ⟨mem_of_firstAt? hfirst, exists_of_mem_hits (by rwa [hhits])⟩
      · have hle : c ≤ e := by simpa only [hhits] using le_hits rule c
        obtain ⟨hmem, place, behind, hle', hhit⟩ := ih h
        exact ⟨hmem, place, behind, Cursor.le_trans hle hle', hhit⟩
  | case3 c char next hnext hfirst ih =>
      obtain ⟨hmem, place, behind, hle, hhit⟩ := ih h
      exact ⟨hmem, place, behind, Cursor.le_trans (Cursor.le_of_next? hnext) hle, hhit⟩

end Plain

/-- If the last node of a text is a token, it stands for a hit that reaches the end of the text. -/
theorem Grammar.exists_take_of_getLast? {g : Grammar} {text : List Char} {nodes : List Node}
    {last : Matched} (hsteady : ∀ entry ∈ g.entries, entry.2.regex.isSteady = true)
    (hwidth : Text.width text < UInt32.size) (hnodes : g.tokenize (String.ofList text) = .ok nodes)
    (hlast : nodes.getLast? = some (.matched last)) :
    ∃ take ∈ Step.takes (Plain.steps g.rules (.start text)),
      last.StandsFor 0 take ∧ take.2.stop = Text.width text := by
  obtain ⟨nodes', hnodes', -, htile⟩ := exists_build hsteady hwidth
  cases hnodes.symm.trans hnodes'
  rw [tokenize, String.toList_ofList] at hnodes
  obtain ⟨steps, hsteps, -, hall⟩ := exists_steps_standsFor (by rwa [Nat.zero_add]) hnodes
  cases hsteps.symm.trans (steps_eq_plain hsteady)
  have hmem : last ∈ nodes.filterMap Node.matched? :=
    List.mem_filterMap.mpr ⟨_, List.mem_of_getLast? hlast, rfl⟩
  obtain ⟨take, hzip⟩ := exists_mem_zip_of_forall₂ hall hmem
  have hstands := List.forall₂_zip hall hzip
  refine ⟨take, (List.of_mem_zip hzip).1, hstands, ?_⟩
  have hend : last.range.stop.toNat = Text.width text :=
    htile.stop_of_getLast? (by rw [List.getLast?_map, hlast]; rfl)
  rw [hstands.ends.2, Nat.zero_add] at hend
  exact hend

end Highlight
