import TreeOps.Markup.Token

/-!
# Every token takes something

What is left behind a token is an end of the text, and a shorter one. The bound on the number of
tokens is therefore never what ends them.
-/

namespace TreeOps.Markup

variable {s before after rest : List Char} {token : Token} {c : Char}

/-- What is left behind one more character is left as well. -/
theorem suffix_of_map_cons {found : Option (List Char × List Char)}
    (h : (found.map fun (before, after) => (c :: before, after)) = some (before, after))
    (hfound : ∀ {front}, found = some (front, after) → after <:+ s) : after <:+ c :: s := by
  obtain ⟨⟨front, back⟩, hrest, heq⟩ := Option.map_eq_some_iff.mp h
  cases heq
  exact (hfound hrest).trans (List.suffix_cons c s)

theorem splitAt?_suffix {mark : List Char} (h : splitAt? mark s = some (before, after)) :
    after <:+ s := by
  induction s generalizing before with
  | nil => cases h
  | cons c s ih =>
    rw [splitAt?] at h
    split at h
    · cases h
      exact List.drop_suffix _ _
    · exact suffix_of_map_cons h ih

theorem splitTag?_suffix {quote : Option Char} (h : splitTag? quote s = some (before, after)) :
    after <:+ s := by
  induction s generalizing quote before with
  | nil => cases h
  | cons c s ih =>
    rw [splitTag?] at h
    split at h
    · cases h
      exact List.suffix_cons c after
    · exact suffix_of_map_cons h ih

theorem splitBalanced?_suffix {depth : Nat} (h : splitBalanced? depth s = some (before, after)) :
    after <:+ s := by
  induction s generalizing depth before with
  | nil => cases h
  | cons c s ih =>
    unfold splitBalanced? at h
    dsimp only at h
    split at h
    · split at h
      · cases h
        exact List.suffix_cons c after
      · exact suffix_of_map_cons h ih
    · exact suffix_of_map_cons h ih

theorem dropKeyword?_suffix {keyword : String} (h : dropKeyword? keyword s = some rest) :
    rest <:+ s := by
  unfold dropKeyword? at h
  dsimp only at h
  split at h
  · cases h
    exact List.drop_suffix _ _
  · cases h

theorem comment?_suffix (h : comment? s = some (token, rest)) : rest <:+ s := by
  obtain ⟨body, hbody, h⟩ := Option.bind_eq_some_iff.mp h
  obtain ⟨⟨_, _⟩, hsplit, h⟩ := Option.bind_eq_some_iff.mp h
  cases h
  exact (splitAt?_suffix hsplit).trans (dropKeyword?_suffix hbody)

theorem markedSection?_suffix (h : markedSection? s = some (token, rest)) : rest <:+ s := by
  obtain ⟨body, hbody, h⟩ := Option.bind_eq_some_iff.mp h
  obtain ⟨⟨_, _⟩, hsplit, h⟩ := Option.bind_eq_some_iff.mp h
  cases h
  exact (splitAt?_suffix hsplit).trans (dropKeyword?_suffix hbody)

theorem documentType?_suffix (h : documentType? s = some (token, rest)) : rest <:+ s := by
  obtain ⟨⟨_, _⟩, hsplit, h⟩ := Option.bind_eq_some_iff.mp h
  obtain ⟨name, -, h⟩ := Option.bind_eq_some_iff.mp h
  split at h
  · cases h
  · cases h
    exact splitBalanced?_suffix hsplit

theorem instruction?_suffix (h : instruction? s = some (token, rest)) : rest <:+ s := by
  unfold instruction? at h
  split at h
  · cases h
  · obtain ⟨⟨_, _⟩, hsplit, h⟩ := Option.map_eq_some_iff.mp h
    cases h
    exact splitAt?_suffix hsplit

theorem closing?_suffix (h : closing? s = some (token, rest)) : rest <:+ s := by
  obtain ⟨⟨_, _⟩, hsplit, h⟩ := Option.map_eq_some_iff.mp h
  cases h
  exact splitAt?_suffix hsplit

theorem opening?_suffix (h : opening? s = some (token, rest)) : rest <:+ s := by
  obtain ⟨⟨_, _⟩, hsplit, h⟩ := Option.map_eq_some_iff.mp h
  cases h
  exact splitTag?_suffix hsplit

theorem markup?_suffix (h : markup? s = some (token, rest)) : rest <:+ s := by
  unfold markup? at h
  split at h
  · exact (comment?_suffix h).trans (List.suffix_cons _ _)
  · exact (markedSection?_suffix h).trans (List.suffix_cons _ _)
  · exact (documentType?_suffix h).trans (List.suffix_cons _ _)
  · exact (instruction?_suffix h).trans (List.suffix_cons _ _)
  · exact (closing?_suffix h).trans (List.suffix_cons _ _)
  · exact opening?_suffix h

theorem reference?_suffix (h : reference? s = some (token, rest)) : rest <:+ s := by
  unfold reference? at h
  dsimp only at h
  split at h
  · next back hdrop =>
    cases h
    exact (List.suffix_cons ';' rest).trans (hdrop ▸ List.dropWhile_suffix _)
  · cases h

/-- A token takes at least one character. -/
theorem first?_shorter (hs : s ≠ []) (h : first? s = some (token, rest)) :
    rest.length < s.length := by
  unfold first? at h
  split at h
  · exact Nat.lt_succ_of_le (markup?_suffix h).length_le
  · exact Nat.lt_succ_of_le (reference?_suffix h).length_le
  · next hmarkup href =>
    cases h
    obtain ⟨c, s, rfl⟩ := List.exists_cons_of_ne_nil hs
    have hlt : c ≠ '<' := fun hc => hmarkup s (by rw [hc])
    have hamp : c ≠ '&' := fun hc => href s (by rw [hc])
    rw [List.dropWhile_cons, if_pos (by simp [hlt, hamp])]
    exact Nat.lt_succ_of_le (List.dropWhile_suffix _).length_le

/-- Bounds that leave room for every character make no difference. -/
theorem firstTokens_eq {m n : Nat} (hm : s.length ≤ m) (hn : s.length ≤ n) :
    firstTokens m s = firstTokens n s := by
  induction m generalizing n s with
  | zero =>
    rw [List.length_eq_zero_iff.mp (Nat.le_zero.mp hm)]
    cases n <;> rfl
  | succ m ih =>
    cases s with
    | nil => cases n <;> rfl
    | cons c s =>
      cases n with
      | zero => cases hn
      | succ n =>
        simp only [firstTokens]
        split
        · next token rest hfirst =>
          have hlt := first?_shorter (List.cons_ne_nil c s) hfirst
          rw [ih (n := n) (by omega) (by omega)]
        · rfl

end TreeOps.Markup
