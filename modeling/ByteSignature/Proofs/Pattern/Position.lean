import ByteSignature.Proofs.Pattern.Token

/-!
# Where tokens stand

The tokens of a text follow each other without gaps.  So the offset of a token is the number of
bytes in front of it, the offsets of tokens ascend, and a token begins and ends where characters
meet.
-/

namespace ByteSignature.Token

open Text

theorem pairwise_scanVisible (source : String) :
    (scanVisible source).Pairwise fun first second => first.stop ≤ second.start := by
  rw [scanVisible, scan_eq]
  exact (tile_scanFrom 0 source.toList).pairwise.filter _

variable {source : String} {token : Token}

/-- What a text consists of around a token. -/
theorem exists_toList_eq_append (tokenMem : token ∈ scan source) :
    ∃ before after, source.toList = before ++ token.text ++ after ∧
      token.start = utf8Length before := by
  rw [scan_eq] at tokenMem
  exact exists_eq_append_of_mem_scanFrom tokenMem

theorem isValid_start (tokenMem : token ∈ scan source) :
    String.Pos.Raw.IsValid source ⟨token.start⟩ := by
  obtain ⟨before, after, source_eq, start_eq⟩ := exists_toList_eq_append tokenMem
  rw [start_eq]
  exact isValid_utf8Length (source_eq.trans (List.append_assoc _ _ _))

theorem isValid_stop (tokenMem : token ∈ scan source) :
    String.Pos.Raw.IsValid source ⟨token.stop⟩ := by
  obtain ⟨before, after, source_eq, start_eq⟩ := exists_toList_eq_append tokenMem
  rw [stop, start_eq, ← utf8Length_append]
  exact isValid_utf8Length source_eq

/-- No token is empty. -/
theorem start_lt_stop (tokenMem : token ∈ scan source) : token.start < token.stop := by
  have ne_nil := (uniform_of_mem_scan tokenMem).2.1
  exact Nat.lt_add_of_pos_right (utf8Length_pos ne_nil)

end ByteSignature.Token
