import SmscGateway.Common.Tokens
import SmscGateway.Smpp.Pdu

/-!
# The fields of a receipt

No match of the three expressions of `ParseDLRReceipt` reaches over a space
(`splits_findField`, `splits_findStat`). So a field is found in its own token,
wherever that stands, and replacing the id leaves the other fields alone if the
id is a token of its own.
-/

namespace SmscGateway

open List Option

namespace Smpp

/-! ## The searches stop at a space -/

variable {c b : UInt8} {tag w s x body p q g t : Bytes} {j : ℕ}

theorem isRegexSpace_iff :
    isRegexSpace c = true ↔ c = 9 ∨ c = 10 ∨ c = 12 ∨ c = 13 ∨ c = 32 := decide_eq_true_iff

theorem not_space_of_all (h : tag.all (!isRegexSpace ·) = true) :
    ∀ b ∈ tag, isRegexSpace b = false := by
  simpa using h

/-- A word is at the front of a text if it is before the first space. -/
theorem prefix_append_space (htag : ∀ b ∈ tag, isRegexSpace b = false) (hc : isRegexSpace c = true)
    (a rest : Bytes) : tag <+: a ++ c :: rest ↔ tag <+: a := by
  refine ⟨fun h => ?_, fun h => h.trans (prefix_append _ _)⟩
  obtain ⟨behind, heq⟩ := h
  rcases append_eq_append_iff.mp heq with ⟨more, rfl, -⟩ | ⟨more, rfl, hmore⟩
  · exact prefix_append _ _
  · cases more with
    | nil => rw [append_nil]
    | cons b more =>
      obtain rfl := (cons.inj hmore).1
      rw [htag c (by simp)] at hc
      cases hc

theorem takeWhile_append_space (hc : isRegexSpace c = true) (a rest : Bytes) :
    (a ++ c :: rest).takeWhile (!isRegexSpace ·) = a.takeWhile (!isRegexSpace ·) := by
  induction a with
  | nil => simp [hc]
  | cons b a ih =>
    rw [cons_append, takeWhile_cons, takeWhile_cons, ih]

theorem splits_findField (hne : tag ≠ []) (htag : ∀ b ∈ tag, isRegexSpace b = false) :
    Splits isRegexSpace (findField tag) where
  nil := rfl
  append := by
    intro a c rest hc
    induction a with
    | nil =>
      have hno : ¬ Begins tag (c :: rest) := by
        rintro ⟨x, -, hpre⟩
        have hnil := (prefix_append_space htag hc [] rest).mp ((prefix_append _ _).trans hpre)
        exact hne (prefix_nil.mp hnil)
      rw [nil_append, findField_of_not_begins hno, findField, none_or]
    | cons b a ih =>
      have hpre : tag.isPrefixOf (b :: a ++ c :: rest) = tag.isPrefixOf (b :: a) := by
        rw [Bool.eq_iff_iff, isPrefixOf_iff_prefix, isPrefixOf_iff_prefix]
        exact prefix_append_space htag hc (b :: a) rest
      rw [cons_append] at hpre ⊢
      rw [findField, findField, hpre]
      by_cases hfront : tag.isPrefixOf (b :: a) = true
      · have hle := (List.isPrefixOf_iff_prefix.mp hfront).length_le
        have hfield : ((b :: (a ++ c :: rest)).drop tag.length).takeWhile (!isRegexSpace ·) =
            ((b :: a).drop tag.length).takeWhile (!isRegexSpace ·) := by
          rw [← cons_append, drop_append_of_le_length hle, takeWhile_append_space hc]
        rw [if_pos hfront, if_pos hfront, hfield, ih]
        cases ((b :: a).drop tag.length).takeWhile (!isRegexSpace ·) <;> rfl
      · rw [if_neg hfront, if_neg hfront, ih]

/-! A letter may take two or three bytes, none of them a space. -/

theorem readLetter_eq (s : Bytes) :
    readLetter s =
      if [0xC5, 0xBF].isPrefixOf s then some ([83], s.drop 2)
      else if [0xE2, 0x84, 0xAA].isPrefixOf s then some ([0xE2, 0x84, 0xAA], s.drop 3)
      else match s with
        | [] => none
        | b :: r =>
          if 65 ≤ b ∧ b ≤ 90 then some ([b], r)
          else if 97 ≤ b ∧ b ≤ 122 then some ([b - 32], r)
          else none := by
  unfold readLetter
  split
  · simp
  · simp
  · rename_i b r hlong hkelvin
    have hlong' : ¬ [0xC5, 0xBF].isPrefixOf (b :: r) = true := by
      intro hpre
      obtain ⟨rest, hrest⟩ := isPrefixOf_iff_prefix.mp hpre
      obtain ⟨rfl, rfl⟩ := cons.inj hrest
      exact hlong rest rfl rfl
    have hkelvin' : ¬ [0xE2, 0x84, 0xAA].isPrefixOf (b :: r) = true := by
      intro hpre
      obtain ⟨rest, hrest⟩ := isPrefixOf_iff_prefix.mp hpre
      obtain ⟨rfl, rfl⟩ := cons.inj hrest
      exact hkelvin rest rfl rfl
    rw [if_neg hlong', if_neg hkelvin']
  · simp

theorem isPrefixOf_append_space (htag : tag.all (!isRegexSpace ·) = true)
    (hc : isRegexSpace c = true) (a rest : Bytes) :
    tag.isPrefixOf (a ++ c :: rest) = tag.isPrefixOf a := by
  rw [Bool.eq_iff_iff, isPrefixOf_iff_prefix, isPrefixOf_iff_prefix]
  exact prefix_append_space (not_space_of_all htag) hc a rest

theorem readLetter_append (hc : isRegexSpace c = true) (a rest : Bytes) :
    readLetter (a ++ c :: rest) = (readLetter a).map fun p => (p.1, p.2 ++ c :: rest) := by
  rw [readLetter_eq, readLetter_eq, isPrefixOf_append_space (by decide) hc,
    isPrefixOf_append_space (by decide) hc]
  by_cases hlong : [0xC5, 0xBF].isPrefixOf a = true
  · have hle : 2 ≤ a.length := (List.isPrefixOf_iff_prefix.mp hlong).length_le
    rw [if_pos hlong, if_pos hlong, map_some, drop_append_of_le_length hle]
  · rw [if_neg hlong, if_neg hlong]
    by_cases hkelvin : [0xE2, 0x84, 0xAA].isPrefixOf a = true
    · have hle : 3 ≤ a.length := (List.isPrefixOf_iff_prefix.mp hkelvin).length_le
      rw [if_pos hkelvin, if_pos hkelvin, map_some, drop_append_of_le_length hle]
    · rw [if_neg hkelvin, if_neg hkelvin]
      cases a with
      | nil => rcases isRegexSpace_iff.mp hc with rfl | rfl | rfl | rfl | rfl <;> rfl
      | cons b a =>
        dsimp only [cons_append]
        split
        · rfl
        · split <;> rfl

theorem readLetters_append (hc : isRegexSpace c = true) (n : ℕ) (a rest : Bytes) :
    readLetters n (a ++ c :: rest) = readLetters n a := by
  induction n generalizing a with
  | zero => rfl
  | succ n ih =>
    rw [readLetters, readLetters, readLetter_append hc]
    cases readLetter a with
    | none => rfl
    | some p => exact congrArg (p.1 :: ·) (ih p.2)

/-- The lower case of an ASCII letter. -/
def lower (b : UInt8) : UInt8 := if 65 ≤ b ∧ b ≤ 90 then b + 32 else b

theorem lower_eq_letter {t : UInt8} (ht : 97 ≤ t ∧ t ≤ 122) (b : UInt8) :
    lower b = t ↔ b = t - 32 ∨ b = t := by
  unfold lower
  grind

theorem lower_eq_of_not_letter (hc : c < 65) (b : UInt8) : lower b = c ↔ b = c := by
  unfold lower
  grind

/-- `(?i)stat:` is an `s` of either kind and then the rest of the word. -/
theorem statTag_eq (s : Bytes) :
    statTag s = (readLetter s).bind fun p =>
      if p.1 = [83] ∧ ascii "tat:" <+: p.2.map lower then some (p.2.drop 4) else none := by
  have ht : ∀ b, lower b = 116 ↔ b = 84 ∨ b = 116 := lower_eq_letter (by decide)
  have ha : ∀ b, lower b = 97 ↔ b = 65 ∨ b = 97 := lower_eq_letter (by decide)
  have hcolon : ∀ b, lower b = 58 ↔ b = 58 := lower_eq_of_not_letter (by decide)
  have htag : ascii "tat:" = [116, 97, 116, 58] := by decide
  rw [statTag, htag]
  cases readLetter s with
  | none => rfl
  | some p =>
    obtain ⟨l, r⟩ := p
    rw [bind_some]
    split
    · rename_i t a t' r' heq
      obtain ⟨rfl, rfl⟩ := Prod.mk.inj (some.inj heq)
      have hiff : (([83] : Bytes) = [83] ∧ [116, 97, 116, 58] <+: (t :: a :: t' :: 58 :: r').map lower) ↔
          (t = 84 ∨ t = 116) ∧ (a = 65 ∨ a = 97) ∧ (t' = 84 ∨ t' = 116) := by
        simp only [map_cons, cons_prefix_cons, ← ht, ← ha, true_and]
        constructor
        · rintro ⟨h₁, h₂, h₃, -⟩
          exact ⟨h₁.symm, h₂.symm, h₃.symm⟩
        · rintro ⟨h₁, h₂, h₃⟩
          exact ⟨h₁.symm, h₂.symm, h₃.symm, rfl, nil_prefix⟩
      dsimp only
      by_cases hcond : (t = 84 ∨ t = 116) ∧ (a = 65 ∨ a = 97) ∧ (t' = 84 ∨ t' = 116)
      · rw [if_pos hcond, if_pos (hiff.mpr hcond)]
        rfl
      · rw [if_neg hcond, if_neg (mt hiff.mp hcond)]
    · rename_i hno
      rw [if_neg]
      rintro ⟨rfl, hpre⟩
      rcases r with _ | ⟨b₁, _ | ⟨b₂, _ | ⟨b₃, _ | ⟨b₄, r⟩⟩⟩⟩
      all_goals
        simp only [map_cons, map_nil, cons_prefix_cons, prefix_nil,
          reduceCtorEq, and_false] at hpre
      obtain rfl := (hcolon b₄).mp hpre.2.2.2.1.symm
      exact hno _ _ _ _ rfl

theorem statTag_append (hc : isRegexSpace c = true) (a rest : Bytes) :
    statTag (a ++ c :: rest) = (statTag a).map (· ++ c :: rest) := by
  rw [statTag_eq, statTag_eq, readLetter_append hc]
  cases readLetter a with
  | none => rfl
  | some p =>
    obtain ⟨l, r⟩ := p
    have hlower : lower c = c := by
      rcases isRegexSpace_iff.mp hc with rfl | rfl | rfl | rfl | rfl <;> rfl
    have hpre : ascii "tat:" <+: (r ++ c :: rest).map lower ↔ ascii "tat:" <+: r.map lower := by
      rw [map_append, map_cons, hlower]
      exact prefix_append_space (not_space_of_all (by decide)) hc _ _
    rw [map_some, bind_some, bind_some]
    by_cases htag : l = [83] ∧ ascii "tat:" <+: r.map lower
    · have hle : 4 ≤ r.length := by
        have hlen := htag.2.length_le
        rwa [length_map] at hlen
      rw [if_pos ⟨htag.1, hpre.mpr htag.2⟩, if_pos htag, map_some,
        drop_append_of_le_length hle]
    · rw [if_neg fun h => htag ⟨h.1, hpre.mp h.2⟩, if_neg htag, map_none]

theorem splits_findStat : Splits isRegexSpace findStat where
  nil := rfl
  append := by
    intro a c rest hc
    induction a with
    | nil =>
      have htag : statTag (c :: rest) = none := by
        have h := statTag_append hc [] rest
        rw [nil_append] at h
        exact h
      have hskip : findStat (c :: rest) = findStat rest := by rw [findStat, htag]
      rw [nil_append, hskip, findStat, none_or]
    | cons b a ih =>
      have htag := statTag_append hc (b :: a) rest
      rw [cons_append] at htag ⊢
      rw [findStat, findStat, htag]
      cases statTag (b :: a) with
      | none => exact ih
      | some r =>
        dsimp only [map_some]
        rw [readLetters_append hc, ih]
        split <;> rfl

/-! ## Tokens without a field -/

theorem findField_eq_none (h : ¬ tag <:+: w) : findField tag w = none := by
  induction w with
  | nil => rfl
  | cons b w ih =>
    rw [findField_of_not_begins]
    · exact ih fun hin => h (hin.trans (infix_cons (infix_refl _)))
    · rintro ⟨c, -, hpre⟩
      exact h ((prefix_append _ _).trans hpre).isInfix

/-- The three words, the last in any case, are not in a string. -/
structure Free (w : Bytes) : Prop where
  id : ¬ ascii "id:" <:+: w
  err : ¬ ascii "err:" <:+: w
  stat : ¬ ascii "stat:" <:+: w.map lower

/-- A letter of an ASCII text is one byte. -/
theorem readLetter_ascii (hb : b < 0x80) (r : Bytes) : readLetter (b :: r) =
      if 65 ≤ b ∧ b ≤ 90 then some ([b], r)
      else if 97 ≤ b ∧ b ≤ 122 then some ([b - 32], r)
      else none := by
  have hlong : b ≠ 0xC5 := fun h => absurd hb (by rw [h]; decide)
  have hkelvin : b ≠ 0xE2 := fun h => absurd hb (by rw [h]; decide)
  rw [readLetter_eq, if_neg, if_neg]
  · intro hpre
    exact hkelvin (cons_prefix_cons.mp (List.isPrefixOf_iff_prefix.mp hpre)).1.symm
  · intro hpre
    exact hlong (cons_prefix_cons.mp (List.isPrefixOf_iff_prefix.mp hpre)).1.symm

/-- The word `stat:` is in the text where it is found. -/
theorem prefix_of_statTag (hb : b < 0x80) {r : Bytes} (h : statTag (b :: s) = some r) :
    ascii "stat:" <+: (b :: s).map lower := by
  rw [statTag_eq] at h
  obtain ⟨⟨l, r'⟩, hletter, hif⟩ := bind_eq_some_iff.mp h
  obtain ⟨htag, hif⟩ := ite_none_right_eq_some.mp hif
  obtain ⟨rfl, hpre⟩ := htag
  have hs : lower b = 115 ∧ r' = s := by
    rw [readLetter_ascii hb] at hletter
    split at hletter
    · obtain ⟨hb83, rfl⟩ := Prod.mk.inj (some.inj hletter)
      obtain rfl := (cons.inj hb83).1
      exact ⟨rfl, rfl⟩
    · obtain ⟨hlow, hletter⟩ := ite_none_right_eq_some.mp hletter
      obtain ⟨hb83, rfl⟩ := Prod.mk.inj (some.inj hletter)
      have hb' : b - 32 = 83 := (cons.inj hb83).1
      exact ⟨(lower_eq_letter (by decide) b).mpr (.inr (by grind)), rfl⟩
  obtain ⟨hlower, rfl⟩ := hs
  rw [map_cons, hlower]
  exact cons_prefix_cons.mpr ⟨rfl, hpre⟩

theorem findStat_eq_none (hascii : ∀ b ∈ w, b < 0x80) (h : ¬ ascii "stat:" <:+: w.map lower) :
    findStat w = none := by
  induction w with
  | nil => rfl
  | cons b w ih =>
    have htag : statTag (b :: w) = none := by
      cases hr : statTag (b :: w) with
      | none => rfl
      | some r => exact absurd (prefix_of_statTag (hascii b mem_cons_self) hr).isInfix h
    rw [findStat, htag]
    refine ih (fun b' hb' => hascii b' (mem_cons_of_mem _ hb')) fun hin => h ?_
    exact hin.trans (infix_cons (infix_refl _))

/-! ## Tokens with a field -/

theorem findField_self (htag : tag ≠ []) (hx : x ≠ []) (hword : ∀ b ∈ x, isRegexSpace b = false) :
    findField tag (tag ++ x) = some x := by
  have h : findField tag (tag ++ x ++ []) = some x := findField_append htag hx hword rfl
  rwa [append_nil] at h

/-- An ASCII letter. -/
def IsLetter (b : UInt8) : Prop := (65 ≤ b ∧ b ≤ 90) ∨ (97 ≤ b ∧ b ≤ 122)

/-- The upper case of an ASCII letter. -/
def upper (b : UInt8) : UInt8 := if 97 ≤ b ∧ b ≤ 122 then b - 32 else b

theorem readLetter_of_isLetter (hb : IsLetter b) (r : Bytes) :
    readLetter (b :: r) = some ([upper b], r) := by
  have hlt : b < 0x80 := by
    unfold IsLetter at hb
    grind
  rw [readLetter_ascii hlt, upper]
  unfold IsLetter at hb
  grind

theorem readLetters_of_isLetter (hs : ∀ b ∈ s, IsLetter b) {n : ℕ} (hn : s.length ≤ n) :
    readLetters n s = s.map fun b => [upper b] := by
  induction s generalizing n with
  | nil => cases n <;> rfl
  | cons b s ih =>
    cases n with
    | zero => cases hn
    | succ n =>
      rw [readLetters, readLetter_of_isLetter (hs b mem_cons_self), map_cons]
      exact congrArg ([upper b] :: ·)
        (ih (fun b' hb' => hs b' (mem_cons_of_mem _ hb')) (Nat.le_of_succ_le_succ hn))

/-- The word in any case, and what it is followed by. -/
theorem statTag_self {stat : Bytes} (h : stat.map lower = ascii "stat:") (r : Bytes) :
    statTag (stat ++ r) = some r := by
  have hlen : stat.length = 5 := by
    have hlen := congrArg length h
    rwa [length_map] at hlen
  obtain ⟨b, tat, rfl⟩ : ∃ b tat, stat = b :: tat := exists_cons_of_ne_nil (by
    rintro rfl
    cases hlen)
  obtain ⟨hb, htat⟩ := cons.inj h
  have hletter : readLetter (b :: (tat ++ r)) = some ([83], tat ++ r) := by
    rcases (lower_eq_letter (by decide) b).mp hb with rfl | rfl <;> rfl
  have hpre : ascii "tat:" <+: (tat ++ r).map lower := by
    rw [map_append, htat]
    exact prefix_append _ _
  have hfour : tat.length = 4 := Nat.succ.inj hlen
  rw [cons_append, statTag_eq, hletter, bind_some, if_pos ⟨rfl, hpre⟩, ← hfour,
    drop_left]

theorem findStat_self {stat : Bytes} (h : stat.map lower = ascii "stat:")
    (hletters : ∀ b ∈ s, IsLetter b) (hmin : 5 ≤ s.length) (hmax : s.length ≤ 7) :
    findStat (stat ++ s) = some (s.map upper) := by
  have htag := statTag_self h s
  obtain ⟨b, tat, rfl⟩ : ∃ b tat, stat = b :: tat := exists_cons_of_ne_nil (by
    rintro rfl
    cases h)
  rw [cons_append] at htag ⊢
  rw [findStat, htag]
  dsimp only
  rw [readLetters_of_isLetter hletters hmax, if_pos (by rwa [length_map])]
  refine congrArg some ?_
  rw [← flatMap_def, map_eq_flatMap]

/-! ## The text that is left of a receipt -/

/-- An ASCII byte that is no white space. -/
def IsPlain (b : UInt8) : Prop := b < 0x80 ∧ ¬ (9 ≤ b ∧ b ≤ 13) ∧ b ≠ 32
  deriving Decidable

theorem isRegexSpace_of_isPlain (h : IsPlain b) : isRegexSpace b = false := by
  obtain ⟨-, hrange, hspace⟩ := h
  rw [← Bool.not_eq_true, isRegexSpace_iff]
  rintro (rfl | rfl | rfl | rfl | rfl)
  · exact hrange (by decide)
  · exact hrange (by decide)
  · exact hrange (by decide)
  · exact hrange (by decide)
  · exact hspace rfl

/-- Runes of which none begins another are stripped off one by one. -/
theorem stripFront_flatten {runes : List Bytes}
    (hfree : ∀ r ∈ runes, ∀ r' ∈ runes, r <+: r' → r = r') {ws : List Bytes}
    (hws : ∀ w ∈ ws, w ∈ runes) (hbody : ∀ r ∈ runes, ¬ r <+: body) {n : ℕ} (hn : ws.length ≤ n) :
    stripFront runes n (ws.flatten ++ body) = body := by
  induction ws generalizing n with
  | nil =>
    cases n with
    | zero => rfl
    | succ n =>
      have hnone : runes.find? (fun r => r.isPrefixOf body) = none := by
        rw [find?_eq_none]
        exact fun r hr hpre => hbody r hr (List.isPrefixOf_iff_prefix.mp hpre)
      rw [flatten_nil, nil_append, stripFront, hnone]
  | cons w ws ih =>
    cases n with
    | zero => cases hn
    | succ n =>
      have hw := hws w mem_cons_self
      rw [flatten_cons, append_assoc, stripFront]
      have hfront : w <+: w ++ (ws.flatten ++ body) := prefix_append _ _
      cases hfind : runes.find? (fun r => r.isPrefixOf (w ++ (ws.flatten ++ body))) with
      | none =>
        rw [find?_eq_none] at hfind
        exact absurd (List.isPrefixOf_iff_prefix.mpr hfront) (hfind w hw)
      | some r =>
        have hr := mem_of_find?_eq_some hfind
        have hfound := find?_some hfind
        have hpre := isPrefixOf_iff_prefix.mp hfound
        -- both begin the text, so one begins the other
        obtain rfl : r = w := by
          rcases prefix_or_prefix_of_prefix hpre hfront with h | h
          · exact hfree r hr w hw h
          · exact (hfree w hw r hr h).symm
        dsimp only
        rw [drop_left]
        exact ih (fun w' hw' => hws w' (mem_cons_of_mem _ hw')) (Nat.le_of_succ_le_succ hn)

theorem length_le_length_flatten {ws : List Bytes} (h : ∀ w ∈ ws, w ≠ []) :
    ws.length ≤ ws.flatten.length := by
  induction ws with
  | nil => exact le_rfl
  | cons w ws ih =>
    have hw := length_pos_iff.mpr (h w mem_cons_self)
    have hws := ih fun w' hw' => h w' (mem_cons_of_mem _ hw')
    rw [length_cons, flatten_cons, length_append]
    omega

/-- No space rune begins, or ends, with a plain byte. -/
theorem not_prefix_of_isPlain {runes : List Bytes} (hruns : ∀ r ∈ runes, ∃ b ∈ r.head?, ¬ IsPlain b)
    (hc : IsPlain c) (l : Bytes) : ∀ r ∈ runes, ¬ r <+: c :: l := by
  intro r hr hpre
  obtain ⟨b, hb, hnot⟩ := hruns r hr
  obtain ⟨r', rfl⟩ := head?_eq_some_iff.mp hb
  obtain rfl := (cons_prefix_cons.mp hpre).1
  exact hnot hc

/-- **`TrimSpace` takes the white space around a text off**, and nothing
else. -/
theorem trimSpace_of_isPlain {before after : List Bytes} (hbefore : ∀ w ∈ before, w ∈ spaceRunes)
    (hafter : ∀ w ∈ after, w ∈ spaceRunes) (hb : b ∈ body.head?) (hc : c ∈ body.getLast?)
    (hbplain : IsPlain b) (hcplain : IsPlain c) :
    trimSpace (before.flatten ++ (body ++ after.flatten)) = body := by
  have hne : ∀ r ∈ spaceRunes, r ≠ [] := by decide
  obtain ⟨front, rfl⟩ := head?_eq_some_iff.mp hb
  have hfirst : stripFront spaceRunes (before.flatten ++ (b :: front ++ after.flatten)).length
      (before.flatten ++ (b :: front ++ after.flatten)) = b :: front ++ after.flatten := by
    refine stripFront_flatten (by decide) hbefore ?_ ?_
    · exact not_prefix_of_isPlain (by decide) hbplain _
    · have hle := length_le_length_flatten fun w hw => hne w (hbefore w hw)
      rw [length_append]
      omega
  obtain ⟨back, hback⟩ := getLast?_eq_some_iff.mp hc
  have hreverse : (b :: front ++ after.flatten).reverse =
      (after.map reverse).reverse.flatten ++ (c :: back.reverse) := by
    rw [reverse_append, reverse_flatten, hback, reverse_append,
      reverse_singleton, singleton_append]
  have hmem : ∀ w ∈ (after.map reverse).reverse, w ∈ spaceRunes.map reverse := by
    intro w hw
    obtain ⟨w', hw', rfl⟩ := mem_map.mp (mem_reverse.mp hw)
    exact mem_map.mpr ⟨w', hafter w' hw', rfl⟩
  have hsecond : stripFront (spaceRunes.map reverse) (b :: front ++ after.flatten).length
      (b :: front ++ after.flatten).reverse = c :: back.reverse := by
    rw [hreverse]
    refine stripFront_flatten (by decide) hmem ?_ ?_
    · exact not_prefix_of_isPlain (by decide) hcplain _
    · have hle := length_le_length_flatten fun w hw => hne w (hafter w hw)
      rw [length_reverse, length_map, length_append]
      omega
  rw [trimSpace, hfirst, hsecond, reverse_cons, reverse_reverse, hback]

/-! ## The order of the fields -/

/-- An ASCII string without white space. -/
structure IsWord (w : Bytes) : Prop where
  ne_nil : w ≠ []
  plain : ∀ b ∈ w, IsPlain b

/-- What separates two tokens: spaces, tabs and newlines. -/
structure IsGap (w : Bytes) : Prop where
  ne_nil : w ≠ []
  space : ∀ b ∈ w, b = 32 ∨ b = 9 ∨ b = 10

theorem IsGap.isRegexSpace (h : IsGap w) : ∀ b ∈ w, isRegexSpace b = true := by
  intro b hb
  rcases h.space b hb with rfl | rfl | rfl <;> decide

theorem isPlain_of_isLetter (h : IsLetter b) : IsPlain b := by
  unfold IsLetter at h
  unfold IsPlain
  grind

theorem colon_not_mem_of_isLetter (h : ∀ b ∈ s, IsLetter b) : (58 : UInt8) ∉ s := by
  intro hmem
  have hcolon : ¬ IsLetter 58 := by
    unfold IsLetter
    decide
  exact hcolon (h 58 hmem)

/-- A word with a colon is not in a string without one. -/
theorem not_infix_of_not_mem (htag : b ∈ tag) (hw : b ∉ w) :
    ¬ tag <:+: w := fun h => hw (h.subset htag)

/-- The tokens of a receipt, in some order. -/
structure Fields (x s e stat : Bytes) (others : List Bytes) : Prop where
  id : IsWord x
  idFree : Free x
  err : IsWord e
  errFree : Free e
  letters : ∀ b ∈ s, IsLetter b
  minLength : 5 ≤ s.length
  maxLength : s.length ≤ 7
  /-- The word `stat:` in any case. -/
  stat : stat.map lower = ascii "stat:"
  others : ∀ w ∈ others, IsWord w ∧ Free w

/-- The tokens themselves. -/
def fieldTokens (x s e stat : Bytes) (others : List Bytes) : List Bytes :=
  (ascii "id:" ++ x) :: (stat ++ s) :: (ascii "err:" ++ e) :: others

section Order

variable {x s e stat : Bytes} {others : List Bytes}

variable {w : Bytes}

theorem isPlain_ascii {tag : Bytes} (h : tag.all (fun b => decide (IsPlain b)) = true)
    (hw : ∀ b ∈ w, IsPlain b) : ∀ b ∈ tag ++ w, IsPlain b := by
  intro b hb
  rcases mem_append.mp hb with hb | hb
  · exact of_decide_eq_true (all_eq_true.mp h b hb)
  · exact hw b hb

theorem Fields.isPlain_stat (h : Fields x s e stat others) : ∀ b ∈ stat, IsPlain b := by
  intro b hb
  have hmem : lower b ∈ ascii "stat:" := h.stat ▸ mem_map_of_mem hb
  have hcheck : ∀ c ∈ ascii "stat:", c = 58 ∨ (97 ≤ c ∧ c ≤ 122) := by decide +kernel
  unfold IsPlain
  rcases hcheck _ hmem with hcolon | hletter
  · rw [lower_eq_of_not_letter (by decide)] at hcolon
    subst hcolon
    decide
  · unfold lower at hletter
    grind

/-- Every token is a word. -/
theorem Fields.isWord (h : Fields x s e stat others) :
    ∀ w ∈ fieldTokens x s e stat others, IsWord w := by
  intro w hw
  simp only [fieldTokens, mem_cons] at hw
  rcases hw with rfl | rfl | rfl | hw
  · exact ⟨by simp [ascii], isPlain_ascii (by decide) h.id.plain⟩
  · refine ⟨fun hnil => ?_, fun b hb => ?_⟩
    · have hmin := h.minLength
      rw [(append_eq_nil_iff.mp hnil).2] at hmin
      cases hmin
    · rcases mem_append.mp hb with hb | hb
      · exact h.isPlain_stat b hb
      · exact isPlain_of_isLetter (h.letters b hb)
  · exact ⟨by simp [ascii], isPlain_ascii (by decide) h.err.plain⟩
  · exact (h.others w hw).1

theorem Fields.not_mem_stat (h : Fields x s e stat others) {b : UInt8}
    (hb : b ∉ ascii "stat:") (hlow : lower b = b) : b ∉ stat := by
  intro hmem
  refine hb ?_
  rw [← h.stat, ← hlow]
  exact mem_map_of_mem hmem

/-- The id is found in its own token. -/
theorem Fields.findField_id (h : Fields x s e stat others) :
    ∀ w ∈ fieldTokens x s e stat others,
      findField (ascii "id:") w = none ∨ findField (ascii "id:") w = some x := by
  intro w hw
  simp only [fieldTokens, mem_cons] at hw
  rcases hw with rfl | rfl | rfl | hw
  · exact .inr (findField_self (by decide) h.id.ne_nil fun b hb =>
      isRegexSpace_of_isPlain (h.id.plain b hb))
  · refine .inl (findField_eq_none fun hin => ?_)
    have hin' := (infix_append_iff (h.not_mem_stat (by decide) (by decide))).mp hin
    exact not_infix_of_not_mem (by decide) (colon_not_mem_of_isLetter h.letters) hin'
  · refine .inl (findField_eq_none fun hin => h.errFree.id ?_)
    exact (infix_append_iff (by decide)).mp hin
  · exact .inl (findField_eq_none (h.others w hw).2.id)

/-- And so is the error code. -/
theorem Fields.findField_err (h : Fields x s e stat others) :
    ∀ w ∈ fieldTokens x s e stat others,
      findField (ascii "err:") w = none ∨ findField (ascii "err:") w = some e := by
  intro w hw
  simp only [fieldTokens, mem_cons] at hw
  rcases hw with rfl | rfl | rfl | hw
  · refine .inl (findField_eq_none fun hin => h.idFree.err ?_)
    exact (infix_append_iff (by decide)).mp hin
  · refine .inl (findField_eq_none fun hin => ?_)
    have hin' := (infix_append_iff (h.not_mem_stat (by decide) (by decide))).mp hin
    exact not_infix_of_not_mem (by decide) (colon_not_mem_of_isLetter h.letters) hin'
  · exact .inr (findField_self (by decide) h.err.ne_nil fun b hb =>
      isRegexSpace_of_isPlain (h.err.plain b hb))
  · exact .inl (findField_eq_none (h.others w hw).2.err)

theorem Fields.findStat (h : Fields x s e stat others) :
    ∀ w ∈ fieldTokens x s e stat others,
      Smpp.findStat w = none ∨ Smpp.findStat w = some (s.map upper) := by
  intro w hw
  have hascii : ∀ b ∈ w, b < 0x80 := fun b hb => ((h.isWord w hw).plain b hb).1
  simp only [fieldTokens, mem_cons] at hw
  rcases hw with rfl | rfl | rfl | hw
  · refine .inl (findStat_eq_none hascii fun hin => h.idFree.stat ?_)
    rw [map_append] at hin
    exact (infix_append_iff (by decide)).mp hin
  · exact .inr (findStat_self h.stat h.letters h.minLength h.maxLength)
  · refine .inl (findStat_eq_none hascii fun hin => h.errFree.stat ?_)
    rw [map_append] at hin
    exact (infix_append_iff (by decide)).mp hin
  · exact .inl (findStat_eq_none hascii (h.others w hw).2.stat)

theorem IsWord.exists_head (h : IsWord w) : ∃ b ∈ w.head?, IsPlain b := by
  obtain ⟨b, w', rfl⟩ := exists_cons_of_ne_nil h.ne_nil
  exact ⟨b, rfl, h.plain b mem_cons_self⟩

theorem IsWord.exists_getLast (h : IsWord w) (l : Bytes) : ∃ b ∈ (l ++ w).getLast?, IsPlain b := by
  have hlast := getLast?_eq_some_getLast h.ne_nil
  refine ⟨w.getLast h.ne_nil, ?_, h.plain _ (getLast_mem h.ne_nil)⟩
  rw [getLast?_append, hlast]
  rfl

/-- A receipt begins and ends with a token. -/
theorem exists_head_joined {first : Bytes} {rest : List (Bytes × Bytes)}
    (h : ∀ w ∈ first :: rest.map Prod.snd, IsWord w) :
    (∃ b ∈ (joined first rest).head?, IsPlain b) ∧
      ∃ b ∈ (joined first rest).getLast?, IsPlain b := by
  constructor
  · obtain ⟨b, hb, hplain⟩ := (h first mem_cons_self).exists_head
    refine ⟨b, ?_, hplain⟩
    rw [joined, head?_append, hb]
    rfl
  · rcases eq_nil_or_concat rest with rfl | ⟨rest, p, rfl⟩
    · have hword := (h first mem_cons_self).exists_getLast []
      rwa [joined, flatMap_nil, append_nil]
    · have hword := h p.2 (mem_cons_of_mem _ (by simp))
      rw [joined, concat_eq_append, flatMap_append, flatMap_singleton,
        ← append_assoc, ← append_assoc]
      exact hword.exists_getLast _

/-- **The order of the fields does not matter.** -/
theorem parseDLRReceipt_of_fields (h : Fields x s e stat others) {first : Bytes}
    {rest : List (Bytes × Bytes)}
    (horder : (first :: rest.map Prod.snd).Perm (fieldTokens x s e stat others))
    (hgaps : ∀ p ∈ rest, IsGap p.1) {before after : List Bytes}
    (hbefore : ∀ w ∈ before, w ∈ spaceRunes) (hafter : ∀ w ∈ after, w ∈ spaceRunes) :
    parseDLRReceipt (before.flatten ++ (joined first rest ++ after.flatten)) =
      some ⟨x, s.map upper, e⟩ := by
  have hwords : ∀ w ∈ first :: rest.map Prod.snd, IsWord w := fun w hw =>
    h.isWord w (horder.subset hw)
  obtain ⟨⟨b, hb, hbplain⟩, c, hc, hcplain⟩ := exists_head_joined hwords
  have htrim := trimSpace_of_isPlain hbefore hafter hb hc hbplain hcplain
  have hsep : ∀ p ∈ rest, p.1 ≠ [] ∧ ∀ c ∈ p.1, isRegexSpace c = true := fun p hp =>
    ⟨(hgaps p hp).ne_nil, (hgaps p hp).isRegexSpace⟩
  -- each of the searches finds the one token that has its field
  have hid : findField (ascii "id:") (joined first rest) = some x := by
    rw [(splits_findField (by decide) (not_space_of_all (by decide))).joined first hsep]
    refine findSome?_eq_of_unique (x := ascii "id:" ++ x) (horder.symm.subset (by simp [fieldTokens]))
      ?_ fun w hw => h.findField_id w (horder.subset hw)
    exact findField_self (by decide) h.id.ne_nil fun b hb =>
      isRegexSpace_of_isPlain (h.id.plain b hb)
  have herr : findField (ascii "err:") (joined first rest) = some e := by
    rw [(splits_findField (by decide) (not_space_of_all (by decide))).joined first hsep]
    refine findSome?_eq_of_unique (x := ascii "err:" ++ e)
      (horder.symm.subset (by simp [fieldTokens]))
      ?_ fun w hw => h.findField_err w (horder.subset hw)
    exact findField_self (by decide) h.err.ne_nil fun b hb =>
      isRegexSpace_of_isPlain (h.err.plain b hb)
  have hstat : Smpp.findStat (joined first rest) = some (s.map upper) := by
    rw [splits_findStat.joined first hsep]
    refine findSome?_eq_of_unique (x := stat ++ s) (horder.symm.subset (by simp [fieldTokens]))
      ?_ fun w hw => h.findStat w (horder.subset hw)
    exact findStat_self h.stat h.letters h.minLength h.maxLength
  rw [parseDLRReceipt, htrim, hid, herr, hstat]
  rfl

end Order

/-- The tokens of a receipt behind the first, in another order than usual. -/
def shuffled : List (Bytes × Bytes) :=
  [(ascii "\t", ascii "done"), (ascii " ", ascii "Stat:Delivrd"), (ascii "  ", ascii "id:S-1")]

theorem fields_shuffled :
    Fields (ascii "S-1") (ascii "Delivrd") (ascii "000") (ascii "Stat:") [ascii "done"] where
  id := ⟨by decide, by decide +kernel⟩
  idFree := ⟨by decide, by decide, by decide⟩
  err := ⟨by decide, by decide +kernel⟩
  errFree := ⟨by decide, by decide, by decide⟩
  letters := by
    unfold IsLetter
    decide +kernel
  minLength := by decide
  maxLength := by decide
  stat := by decide
  others := by
    intro w hw
    obtain rfl := mem_singleton.mp hw
    exact ⟨⟨by decide, by decide +kernel⟩, ⟨by decide, by decide, by decide⟩⟩

/-- Between a no-break space and a newline. -/
theorem parseDLRReceipt_shuffled :
    parseDLRReceipt ([0xC2, 0xA0] ++ ascii "err:000\tdone Stat:Delivrd  id:S-1\n") =
      some ⟨ascii "S-1", ascii "DELIVRD", ascii "000"⟩ := by
  have hgaps : ∀ p ∈ shuffled, IsGap p.1 := by
    intro p hp
    simp only [shuffled, mem_cons, not_mem_nil, or_false] at hp
    rcases hp with rfl | rfl | rfl <;> exact ⟨by decide, by decide +kernel⟩
  have htext : [0xC2, 0xA0] ++ ascii "err:000\tdone Stat:Delivrd  id:S-1\n" =
      [[0xC2, 0xA0]].flatten ++ (joined (ascii "err:000") shuffled ++ [ascii "\n"].flatten) := by
    decide +kernel
  have hupper : ascii "DELIVRD" = (ascii "Delivrd").map upper := by decide +kernel
  rw [htext, hupper]
  exact parseDLRReceipt_of_fields fields_shuffled (by decide +kernel) hgaps (by decide)
    (by decide)

/-! ## The id that is replaced -/

/-- **Where a search finds its field**: at the first place where one begins, and
up to the next space. -/
theorem findField_eq_some {text : Bytes} (h : findField tag text = some s) :
    ∃ p q, text = p ++ (tag ++ (s ++ q)) ∧
      (q = [] ∨ ∃ c q', isRegexSpace c = true ∧ q = c :: q') ∧
      ∀ j < p.length, ¬ Begins tag (text.drop j) := by
  induction text with
  | nil => cases h
  | cons b bs ih =>
    rcases findField_cases h with ⟨hno, h'⟩ | ⟨rest, heq, -, hrest⟩
    · obtain ⟨p, q, rfl, hq, hfirst⟩ := ih h'
      refine ⟨b :: p, q, rfl, hq, fun j hj => ?_⟩
      cases j with
      | zero => exact hno
      | succ j => exact hfirst j (Nat.lt_of_succ_lt_succ hj)
    · refine ⟨[], rest, by rw [heq, nil_append, append_assoc], ?_,
        fun j hj => absurd hj (Nat.not_lt_zero j)⟩
      cases rest with
      | nil => exact .inl rfl
      | cons c rest =>
        refine .inr ⟨c, rest, ?_, rfl⟩
        simpa using hrest

/-- The first occurrence is the one that is replaced. -/
theorem replaceFirst_of_first {old : Bytes} (hold : old ≠ []) (new : Bytes)
    (hfirst : ∀ j < p.length, ¬ old <+: (p ++ (old ++ q)).drop j) :
    replaceFirst old new (p ++ (old ++ q)) = p ++ (new ++ q) := by
  induction p with
  | nil =>
    obtain ⟨b, old, rfl⟩ := exists_cons_of_ne_nil hold
    have hpre : (b :: old).isPrefixOf (b :: (old ++ q)) = true :=
      isPrefixOf_iff_prefix.mpr (prefix_append (b :: old) q)
    rw [nil_append, nil_append, cons_append, replaceFirst, if_pos hpre,
      ← cons_append, drop_left]
  | cons b p ih =>
    have hno : ¬ old.isPrefixOf (b :: (p ++ (old ++ q))) = true := fun hpre =>
      hfirst 0 (Nat.succ_pos _) (List.isPrefixOf_iff_prefix.mp hpre)
    rw [cons_append, replaceFirst, if_neg hno,
      ih fun j hj => hfirst (j + 1) (Nat.succ_lt_succ hj), cons_append]

/-- The id that was found is the one that is replaced. -/
theorem replaceFirst_id (hs : s ≠ []) (hword : ∀ b ∈ s, isRegexSpace b = false)
    (hfirst : ∀ j < p.length,
      ¬ Begins (ascii "id:") ((p ++ (ascii "id:" ++ (s ++ q))).drop j)) :
    replaceFirst (ascii "id:" ++ s) (ascii "id:" ++ g) (p ++ (ascii "id:" ++ (s ++ q))) =
      p ++ (ascii "id:" ++ (g ++ q)) := by
  have hold : ascii "id:" ++ s ≠ [] := fun hnil => hs (append_eq_nil_iff.mp hnil).2
  rw [← append_assoc (ascii "id:") s q, ← append_assoc (ascii "id:") g q]
  refine replaceFirst_of_first hold _ fun j hj hpre => ?_
  obtain ⟨c, s, rfl⟩ := exists_cons_of_ne_nil hs
  refine hfirst j hj ⟨c, hword c mem_cons_self, ?_⟩
  rw [append_assoc (ascii "id:") (c :: s) q] at hpre
  exact List.IsPrefix.trans ⟨s, by simp⟩ hpre

/-- A text is white space, or white space around something else. -/
theorem exists_body {α : Type} (P : α → Prop) (t : List α) :
    (∀ b ∈ t, ¬ P b) ∨ ∃ w body w', t = w ++ (body ++ w') ∧ (∀ b ∈ w, ¬ P b) ∧
      (∀ b ∈ w', ¬ P b) ∧ (∃ b ∈ body.head?, P b) ∧ ∃ b ∈ body.getLast?, P b := by
  induction t with
  | nil => exact .inl fun b hb => absurd hb not_mem_nil
  | cons b t ih =>
    by_cases hb : P b
    · right
      rcases ih with hno | ⟨w, body, w', rfl, -, hw', -, c, hc, hlast⟩
      · exact ⟨[], [b], t, rfl, by simp, hno, ⟨b, rfl, hb⟩, b, rfl, hb⟩
      · refine ⟨[], b :: (w ++ body), w', by simp, by simp, hw', ⟨b, rfl, hb⟩, c, ?_, hlast⟩
        rw [← cons_append, getLast?_append, hc]
        rfl
    · rcases ih with hno | ⟨w, body, w', rfl, hw, hw', hends⟩
      · exact .inl (forall_mem_cons.mpr ⟨hb, hno⟩)
      · exact .inr ⟨b :: w, body, w', rfl, forall_mem_cons.mpr ⟨hb, hw⟩, hw', hends⟩

/-- The ASCII bytes that `TrimSpace` removes, one by one. -/
theorem exists_spaceRunes (hascii : ∀ b ∈ w, b < 0x80) (hw : ∀ b ∈ w, ¬ IsPlain b) :
    ∃ ws : List Bytes, ws.flatten = w ∧ ∀ r ∈ ws, r ∈ spaceRunes := by
  refine ⟨w.map fun b => [b], ?_, fun r hr => ?_⟩
  · rw [← flatMap_def, flatMap_singleton']
  · obtain ⟨b, hb, rfl⟩ := mem_map.mp hr
    have hspace : b = 9 ∨ b = 10 ∨ b = 11 ∨ b = 12 ∨ b = 13 ∨ b = 32 := by
      have hlt := hascii b hb
      have hnot := hw b hb
      unfold IsPlain at hnot
      grind
    rcases hspace with rfl | rfl | rfl | rfl | rfl | rfl <;> decide

/-- **What `TrimSpace` leaves of an ASCII text.** -/
theorem trimSpace_cases (hascii : ∀ b ∈ t, b < 0x80) :
    trimSpace t = [] ∨ ∃ w body w', t = w ++ (body ++ w') ∧ (∀ b ∈ w, ¬ IsPlain b) ∧
      (∃ b ∈ body.head?, IsPlain b) ∧ (∃ b ∈ body.getLast?, IsPlain b) ∧
      ∀ body', (∃ b ∈ body'.head?, IsPlain b) → (∃ b ∈ body'.getLast?, IsPlain b) →
        trimSpace (w ++ (body' ++ w')) = body' := by
  rcases exists_body IsPlain t with hno | ⟨w, body, w', rfl, hw, hw', hhead, hlast⟩
  · left
    obtain ⟨ws, rfl, hws⟩ := exists_spaceRunes hascii hno
    have hne : ∀ r ∈ spaceRunes, r ≠ [] := by decide
    have hstrip : stripFront spaceRunes (ws.flatten ++ []).length (ws.flatten ++ []) = [] := by
      refine stripFront_flatten (by decide) hws (fun r hr hpre => ?_) ?_
      · exact hne r hr (prefix_nil.mp hpre)
      · rw [append_nil]
        exact length_le_length_flatten fun w hw => hne w (hws w hw)
    rw [append_nil] at hstrip
    rw [trimSpace, hstrip]
    rfl
  · right
    refine ⟨w, body, w', rfl, hw, hhead, hlast, ?_⟩
    obtain ⟨before, rfl, hbefore⟩ := exists_spaceRunes (fun b hb => hascii b (by simp [hb])) hw
    obtain ⟨after, rfl, hafter⟩ := exists_spaceRunes (fun b hb => hascii b (by simp [hb])) hw'
    rintro body' ⟨b, hb, hbplain⟩ ⟨c, hc, hcplain⟩
    exact trimSpace_of_isPlain hbefore hafter hb hc hbplain hcplain

/-- What a receipt parses to once it is trimmed. -/
theorem parseDLRReceipt_of_trim {id : Bytes} (htrim : trimSpace t = body)
    (hid : findField (ascii "id:") body = some id) : parseDLRReceipt t =
      some ⟨id, (findStat body).getD [], (findField (ascii "err:") body).getD []⟩ := by
  rw [parseDLRReceipt, htrim, hid]
  rfl

/-- What it was parsed from. -/
theorem findField_of_parse {receipt : DLRReceipt} (htrim : trimSpace t = body)
    (hparse : parseDLRReceipt t = some receipt) : ∃ s, findField (ascii "id:") body = some s ∧
      receipt = ⟨s, (findStat body).getD [], (findField (ascii "err:") body).getD []⟩ := by
  cases hs : findField (ascii "id:") body with
  | none =>
    rw [parseDLRReceipt, htrim, hs] at hparse
    cases hparse
  | some s =>
    rw [parseDLRReceipt_of_trim htrim hs] at hparse
    exact ⟨s, rfl, (some.inj hparse).symm⟩

/-- White space in front of a text does not begin a field. -/
theorem not_begins_append {l : Bytes} (hw : ∀ b ∈ w, ¬ IsPlain b) (hj : j < w.length) :
    ¬ Begins (ascii "id:") ((w ++ l).drop j) := by
  rintro ⟨c, -, hpre⟩
  have hdrop : (w ++ l).drop j = w[j] :: ((w ++ l).drop (j + 1)) := by
    rw [drop_append_of_le_length hj.le, drop_eq_getElem_cons hj,
      drop_append_of_le_length hj, cons_append]
  rw [hdrop] at hpre
  have hi : (105 : UInt8) = w[j] := (cons_prefix_cons.mp hpre).1
  refine hw (w[j]) (getElem_mem hj) ?_
  rw [← hi]
  decide

/-- What stands behind a text is too late for a field that would begin before
the one that is there. -/
theorem not_begins_of_append {w' : Bytes} (hs : s ≠ []) (hbody : body = p ++ (tag ++ (s ++ q)))
    (hj : j < p.length) (hno : ¬ Begins tag (body.drop j)) :
    ¬ Begins tag ((body ++ w').drop j) := by
  rintro ⟨c, hc, hpre⟩
  refine hno ⟨c, hc, ?_⟩
  have hspos := length_pos_iff.mpr hs
  have hlen : body.length = p.length + (tag.length + (s.length + q.length)) := by
    rw [hbody]
    simp only [length_append]
  rw [drop_append_of_le_length (by omega)] at hpre
  refine prefix_of_prefix_length_le hpre (prefix_append _ _) ?_
  rw [length_append, length_singleton, length_drop]
  omega

/-- The first match in what is left of a text is the first in the text. -/
theorem not_begins_padded {w' : Bytes} (hw : ∀ b ∈ w, ¬ IsPlain b) (hs : s ≠ [])
    (hbody : body = p ++ (ascii "id:" ++ (s ++ q)))
    (hfirst : ∀ j < p.length, ¬ Begins (ascii "id:") (body.drop j)) (hj : j < (w ++ p).length) :
    ¬ Begins (ascii "id:") ((w ++ (body ++ w')).drop j) := by
  by_cases hjw : j < w.length
  · exact not_begins_append hw hjw
  · obtain ⟨k, rfl⟩ := Nat.exists_eq_add_of_le (not_lt.mp hjw)
    rw [length_append] at hj
    rw [drop_append, drop_of_length_le (Nat.le_add_right _ _), nil_append,
      Nat.add_sub_cancel_left]
    have hk : k < p.length := by omega
    exact not_begins_of_append hs hbody hk (hfirst k hk)

/-- What ends with a space still does, or is nothing, when its beginning is
cut off. -/
theorem ends_of_append (h : w ++ p = [] ∨ ∃ p' c, isRegexSpace c = true ∧ w ++ p = p' ++ [c]) :
    p = [] ∨ ∃ p' c, isRegexSpace c = true ∧ p = p' ++ [c] := by
  rcases eq_nil_or_concat p with rfl | ⟨p', c, rfl⟩
  · exact .inl rfl
  · rcases h with hnil | ⟨p'', c', hc', heq⟩
    · simp at hnil
    · rw [concat_eq_append, ← append_assoc] at heq
      obtain rfl := singleton_inj.mp (append_inj_right' heq rfl)
      exact .inr ⟨p', c, hc', concat_eq_append⟩

/-- A field in the middle of a text, and any other in its place. -/
theorem find_middle {β : Type} {find : Bytes → Option β} (hsplits : Splits isRegexSpace find)
    (hp : p = [] ∨ ∃ p' c, isRegexSpace c = true ∧ p = p' ++ [c])
    (hq : q = [] ∨ ∃ c q', isRegexSpace c = true ∧ q = c :: q') {y : Bytes}
    (hx : find (ascii "id:" ++ x) = none) (hy : find (ascii "id:" ++ y) = none) :
    find (p ++ (ascii "id:" ++ (x ++ q))) = find (p ++ (ascii "id:" ++ (y ++ q))) := by
  rw [← append_assoc (ascii "id:"), ← append_assoc (ascii "id:"),
    hsplits.middle hp hq, hsplits.middle hp hq, hx, hy]

/-- A text begins as it did when its id is replaced. -/
theorem exists_head_id {y : Bytes} (h : ∃ b ∈ (p ++ (ascii "id:" ++ x)).head?, IsPlain b) :
    ∃ b ∈ (p ++ (ascii "id:" ++ y)).head?, IsPlain b := by
  cases p with
  | nil => exact ⟨105, rfl, by decide⟩
  | cons b p => exact h

/-- And it ends as it did, or with the new id. -/
theorem exists_getLast_id (hg : g ≠ []) (hplain : ∀ b ∈ g, IsPlain b)
    (h : ∃ b ∈ (p ++ (ascii "id:" ++ (s ++ q))).getLast?, IsPlain b) :
    ∃ b ∈ (p ++ (ascii "id:" ++ (g ++ q))).getLast?, IsPlain b := by
  simp only [← append_assoc] at h ⊢
  by_cases hq : q = []
  · subst hq
    rw [append_nil]
    exact IsWord.exists_getLast ⟨hg, hplain⟩ _
  · rw [getLast?_append_of_ne_nil _ hq] at h ⊢
    exact h

/-- A gateway id. -/
def IsGwMsgID (g : Bytes) : Prop := ∃ ds, (∀ d ∈ ds, IsDigit d) ∧ g = ascii "GW-" ++ ds

theorem isPlain_of_isDigit {d : UInt8} (h : IsDigit d) : IsPlain d ∧ d ≠ 58 := by
  obtain ⟨hmin, hmax⟩ := h
  have hne : ∀ c : UInt8, c.toNat < 48 ∨ 57 < c.toNat → d ≠ c := by
    rintro c hc rfl
    omega
  refine ⟨⟨?_, fun hrange => ?_, hne 32 (by decide)⟩, hne 58 (by decide)⟩
  · exact UInt8.lt_iff_toNat_lt.mpr (lt_of_le_of_lt hmax (by decide))
  · have hle := UInt8.le_iff_toNat_le.mp hrange.2
    have h13 : (13 : UInt8).toNat = 13 := rfl
    omega

theorem IsGwMsgID.plain (h : IsGwMsgID g) : g ≠ [] ∧ (∀ b ∈ g, IsPlain b) ∧ (58 : UInt8) ∉ g := by
  obtain ⟨ds, hds, rfl⟩ := h
  refine ⟨by simp [ascii], isPlain_ascii (by decide) fun d hd => (isPlain_of_isDigit (hds d hd)).1,
    fun hmem => ?_⟩
  rcases mem_append.mp hmem with hmem | hmem
  · exact absurd hmem (by decide)
  · exact (isPlain_of_isDigit (hds _ hmem)).2 rfl

/-- An id without the word for a field shows none. -/
theorem find_none_of_id (hascii : ∀ b ∈ x, b < 0x80) (herr : ¬ ascii "err:" <:+: x)
    (hstat : ¬ ascii "stat:" <:+: x.map lower) :
    findField (ascii "err:") (ascii "id:" ++ x) = none ∧ findStat (ascii "id:" ++ x) = none := by
  refine ⟨findField_eq_none fun hin => herr ((infix_append_iff (by decide)).mp hin),
    findStat_eq_none (fun b hb => ?_) fun hin => hstat ?_⟩
  · rcases mem_append.mp hb with hb | hb
    · have hid : ∀ b ∈ ascii "id:", b < 0x80 := by decide +kernel
      exact hid b hb
    · exact hascii b hb
  · rw [map_append] at hin
    exact (infix_append_iff (by decide)).mp hin

theorem IsGwMsgID.find_none (h : IsGwMsgID g) :
    findField (ascii "err:") (ascii "id:" ++ g) = none ∧ findStat (ascii "id:" ++ g) = none := by
  obtain ⟨-, hplain, hcolon⟩ := h.plain
  refine find_none_of_id (fun b hb => (hplain b hb).1) (not_infix_of_not_mem (by decide) hcolon)
    (not_infix_of_not_mem (b := 58) (by decide) fun hmem => ?_)
  obtain ⟨b, hb, hlow⟩ := mem_map.mp hmem
  rw [lower_eq_of_not_letter (by decide)] at hlow
  exact hcolon (hlow ▸ hb)

/-- **The translation hits the id that was parsed**, and changes nothing else.
If that id is a token of its own which holds no other field, all fields but the
id stay what they were. -/
theorem translateDLRMessageID_hits {t g : Bytes} {receipt : DLRReceipt}
    (hascii : ∀ b ∈ t, b < 0x80) (hparse : parseDLRReceipt t = some receipt) (hg : IsGwMsgID g) :
    ∃ p q, t = p ++ (ascii "id:" ++ (receipt.messageID ++ q)) ∧
      (∀ j < p.length, ¬ Begins (ascii "id:") (t.drop j)) ∧
      translateDLRMessageID t receipt.messageID g = p ++ (ascii "id:" ++ (g ++ q)) ∧
      ∃ translated,
        parseDLRReceipt (translateDLRMessageID t receipt.messageID g) = some translated ∧
        translated.messageID = g ∧
        ((p = [] ∨ ∃ p' c, isRegexSpace c = true ∧ p = p' ++ [c]) →
          ¬ ascii "err:" <:+: receipt.messageID →
          ¬ ascii "stat:" <:+: receipt.messageID.map lower →
          translated.status = receipt.status ∧ translated.errorCode = receipt.errorCode) := by
  obtain ⟨hgne, hgplain, -⟩ := hg.plain
  rcases trimSpace_cases hascii with hnil | ⟨w, body, w', rfl, hw, hhead, hlast, htrim⟩
  · rw [parseDLRReceipt, hnil] at hparse
    cases hparse
  have hbody := htrim body hhead hlast
  obtain ⟨s, hs, rfl⟩ := findField_of_parse hbody hparse
  obtain ⟨p, q, hpq, hq, hfirst⟩ := findField_eq_some hs
  obtain ⟨hsne, hsword⟩ := findField_word hs
  dsimp only
  have htext : w ++ (body ++ w') = (w ++ p) ++ (ascii "id:" ++ (s ++ (q ++ w'))) := by
    rw [hpq]
    simp only [append_assoc]
  have hfirst' : ∀ j < (w ++ p).length, ¬ Begins (ascii "id:") ((w ++ (body ++ w')).drop j) :=
    fun j hj => not_begins_padded hw hsne hpq hfirst hj
  have htrans : translateDLRMessageID (w ++ (body ++ w')) s g =
      (w ++ p) ++ (ascii "id:" ++ (g ++ (q ++ w'))) := by
    rw [htext] at hfirst' ⊢
    exact replaceFirst_id hsne hsword hfirst'
  refine ⟨w ++ p, q ++ w', htext, hfirst', htrans, ?_⟩
  have hbody' : trimSpace (translateDLRMessageID (w ++ (body ++ w')) s g) =
      p ++ (ascii "id:" ++ (g ++ q)) := by
    rw [hpq] at hhead hlast
    have htrim' := htrim (p ++ (ascii "id:" ++ (g ++ q))) (exists_head_id hhead)
      (exists_getLast_id hgne hgplain hlast)
    rw [htrans, ← htrim']
    simp only [append_assoc]
  have hid' : findField (ascii "id:") (p ++ (ascii "id:" ++ (g ++ q))) = some g := by
    have hword : ∀ b ∈ g, isRegexSpace b = false := fun b hb =>
      isRegexSpace_of_isPlain (hgplain b hb)
    have hfound := findField_replaceFirst (by decide) hgne hword hs
    rw [hpq] at hfirst hfound
    rwa [replaceFirst_id hsne hsword hfirst] at hfound
  refine ⟨_, parseDLRReceipt_of_trim hbody' hid', rfl, fun hp herr hstat => ?_⟩
  have hp' := ends_of_append hp
  have hsascii : ∀ b ∈ s, b < 0x80 := fun b hb => hascii b (by simp [htext, hb])
  obtain ⟨herr', hstat'⟩ := find_none_of_id hsascii herr hstat
  obtain ⟨hgerr, hgstat⟩ := hg.find_none
  dsimp only
  rw [hpq]
  exact ⟨congrArg (Option.getD · []) (find_middle splits_findStat hp' hq hgstat hstat'),
    congrArg (Option.getD · [])
      (find_middle (splits_findField (by decide) (not_space_of_all (by decide))) hp' hq hgerr
        herr')⟩

/-- The receipt of a message that the gateway knows as `GW-7`. -/
theorem translateDLRMessageID_sample :
    parseDLRReceipt (ascii "stat:DELIVRD id:S-1 err:000") =
        some ⟨ascii "S-1", ascii "DELIVRD", ascii "000"⟩ ∧
      ∃ translated, parseDLRReceipt (translateDLRMessageID (ascii "stat:DELIVRD id:S-1 err:000")
        (ascii "S-1") (ascii "GW-7")) = some translated ∧ translated.messageID = ascii "GW-7" := by
  have hparse : parseDLRReceipt (ascii "stat:DELIVRD id:S-1 err:000") =
      some ⟨ascii "S-1", ascii "DELIVRD", ascii "000"⟩ := by decide +kernel
  have hg : IsGwMsgID (ascii "GW-7") := ⟨ascii "7", by unfold IsDigit; decide +kernel, by decide⟩
  obtain ⟨-, -, -, -, -, translated, hparse', hid, -⟩ :=
    translateDLRMessageID_hits (by decide +kernel) hparse hg
  exact ⟨hparse, translated, hparse', hid⟩

end Smpp

end SmscGateway
