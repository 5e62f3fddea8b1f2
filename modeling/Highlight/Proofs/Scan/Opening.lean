import Highlight.Proofs.Scan.Pieces

/-!
How the nodes of a text begin. A hit without context that takes in all of the text leaves one node
(`exists_matched_of_build`), and one with context leaves that for a literal in front of its node
(`exists_literal_of_build`).
-/

namespace Highlight.Forest

variable {base : Nat} {rules : List Rule} {rule : Rule} {c d e : Cursor} {char : Char}
  {nodes : List Node}

theorem exists_matched_of_build {text : List Char} (hreads : c.Reads text d)
    (hnext : c.next? = some (char, e))
    (hfirst : Plain.firstAt? rules c =
      some (rule, [.between c d (Cursor.offset_le_of_le hreads.le)], d))
    (hend : d.after = []) (h : build base (.start c) (Plain.steps rules c) = .ok nodes) :
    ∃ matched, nodes = [.matched matched] ∧
      TokenOf base rule (.between c d (Cursor.offset_le_of_le hreads.le)) text matched := by
  rw [Plain.steps_of_firstAt?_eq_some hnext hfirst,
    Plain.steps_of_next?_eq_none (Cursor.next?_eq_none_iff.mpr hend)] at h
  obtain ⟨run, before, node, place, after, hextend, hbefore, htoken, hafter, rfl⟩ :=
    exists_of_build_take h
  have hrun : run = .start c := by
    rcases Run.eq_of_extend_eq_ok hextend with ⟨-, hrun⟩ | ⟨_, _, hoffset, -⟩
    · exact hrun
    · exact absurd rfl hoffset
  subst hrun
  -- There is no text before the token, and none behind it.
  cases hbefore
  cases hafter
  obtain ⟨found, matched, rfl, hread, hmade⟩ := exists_tokenOf_of_token_eq_ok htoken
  have htoEnd : c.readTo? d.offset = some (found, place) := hread
  rw [hreads.readTo?] at htoEnd
  cases htoEnd
  exact ⟨matched, rfl, hmade⟩

theorem exists_literal_of_build {hit : Hit} {hits : List Hit} {context : List Char}
    (hnext : c.next? = some (char, e))
    (hfirst : Plain.firstAt? rules c = some (rule, hit :: hits, d)) {f : Cursor}
    (hreads : c.Reads context f) (hne : context ≠ []) (hcontext : hit.contextEnd = f.offset)
    (hlt : base + Text.width c.text < UInt32.size)
    (h : build base (.start c) (Plain.steps rules c) = .ok nodes) :
    ∃ range matched rest, matched.name = rule.token ∧
      nodes = .literal (String.ofList context) range :: .matched matched :: rest := by
  rw [Plain.steps_of_firstAt?_eq_some hnext hfirst] at h
  obtain ⟨run, before, node, place, after, hextend, hbefore, htoken, -, rfl⟩ :=
    exists_of_build_take h
  obtain ⟨text, matched, rfl, -, hmade⟩ := exists_tokenOf_of_token_eq_ok htoken
  obtain ⟨hsound, -, hle, -⟩ := (Run.sound_start c).extend hextend
  have htext : run.place.text = c.text := Cursor.text_eq_of_le hle
  rw [hcontext] at hextend
  have hrun : run.text = context.reverse := by
    rcases Run.eq_of_extend_eq_ok hextend with ⟨heq, -⟩ | ⟨front, _, -, hread, -, -, hrun⟩
    · exact absurd heq (Nat.ne_of_gt (hreads.offset_lt hne))
    · have hfront : c.readTo? f.offset = some (front, run.place) := hread
      rw [hreads.readTo?] at hfront
      cases hfront
      rw [hrun]
      exact List.append_nil _
  rcases Run.literal_cases hsound (htext ▸ hlt) with ⟨hnil, -⟩ | ⟨range, -, hliteral⟩
  · rw [hrun, List.reverse_eq_nil_iff] at hnil
    exact absurd hnil hne
  · rw [hrun, List.reverse_reverse, hbefore] at hliteral
    cases hliteral
    exact ⟨range, matched, after, hmade.name_eq, rfl⟩

end Highlight.Forest
