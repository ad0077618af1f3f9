import Watchlist.Mqtt.MqttService

/-!
What a topic filter matches under MQTT 3.1.1, section 4.7, and what `TopicMatches`
makes of it. The protocol speaks of levels; the function cuts the two strings one
level at a time, and this module relates the two.
-/

namespace Watchlist.Mqtt

open Bytes

/-! ### The protocol -/

/-- The levels of a filter or of a topic name. -/
def levels (s : Bytes) : List Bytes := split 47 s

/-- Which levels a filter matches. -/
inductive Matches : List Bytes → List Bytes → Prop
  | ended : Matches [] []
  /-- the number sign: the parent level, and any number of levels below it -/
  | remaining (topic : List Bytes) : Matches [ascii "#"] topic
  | single {filter topic : List Bytes} (level : Bytes) (h : Matches filter topic) :
      Matches (ascii "+" :: filter) (level :: topic)
  | identical {filter topic : List Bytes} (level : Bytes) (hmulti : level ≠ ascii "#")
      (hsingle : level ≠ ascii "+") (h : Matches filter topic) :
      Matches (level :: filter) (level :: topic)

/-- The number sign stands only as the whole last level, the plus sign only as a whole level. -/
def ValidLevels : List Bytes → Prop
  | [] => True
  | level :: rest =>
      (35 ∈ level → level = ascii "#" ∧ rest = []) ∧ (43 ∈ level → level = ascii "+") ∧
        ValidLevels rest

def ValidFilter (filter : Bytes) : Prop := filter ≠ [] ∧ ValidLevels (levels filter)

def ValidTopicName (topic : Bytes) : Prop := topic ≠ [] ∧ 35 ∉ topic ∧ 43 ∉ topic

/-- A filter that starts with a wildcard, and a topic name that starts with `$`. -/
def Excluded (filter topic : Bytes) : Prop :=
  ((levels filter).head? = some (ascii "#") ∨ (levels filter).head? = some (ascii "+")) ∧
    topic.head? = some 36

/-- The filter matches the topic name. -/
def MatchesTopic (filter topic : Bytes) : Prop :=
  Matches (levels filter) (levels topic) ∧ ¬Excluded filter topic

/-- The topic name is the parent level of the number sign at the end of the filter. -/
def ParentOf (filter topic : List Bytes) : Prop :=
  filter.getLast? = some (ascii "#") ∧ Matches filter.dropLast topic

instance (filter topic : Bytes) : Decidable (Excluded filter topic) := by
  unfold Excluded
  infer_instance

/-! ### Levels -/

theorem levels_ne_nil (s : Bytes) : levels s ≠ [] := List.splitOn_ne_nil 47 s

/-- The first level, and the levels behind the first separator. -/
theorem levels_eq (s : Bytes) :
    levels s = s.takeWhile (· ≠ 47) ::
      match s.drop (s.takeWhile (· ≠ 47)).length with
      | [] => []
      | _ :: rest => levels rest := by
  induction s with
  | nil => rfl
  | cons c cs ih =>
      rw [levels, split, List.splitOn_cons_eq_if_modifyHead]
      by_cases hseparator : c = 47
      · subst hseparator
        simp [levels, split]
      · rw [if_neg (by simpa using hseparator)]
        rw [levels, split] at ih
        rw [ih]
        simp [hseparator]

/-- A cut of the loop: the string was one level, or goes on behind a separator. -/
theorem levels_cases (s : Bytes) :
    (s.drop (s.takeWhile (· ≠ 47)).length = [] ∧ levels s = [s.takeWhile (· ≠ 47)] ∧
      (s.takeWhile (· ≠ 47)).length = s.length) ∨
    ∃ rest, s.drop (s.takeWhile (· ≠ 47)).length = 47 :: rest ∧
      levels s = s.takeWhile (· ≠ 47) :: levels rest ∧
      (s.takeWhile (· ≠ 47)).length + 1 + rest.length = s.length := by
  have hlevels := levels_eq s
  have hlength := congrArg List.length (List.takeWhile_append_dropWhile (p := (· ≠ 47)) (l := s))
  have hdrop : s.drop (s.takeWhile (· ≠ 47)).length = s.dropWhile (· ≠ 47) := by
    calc s.drop (s.takeWhile (· ≠ 47)).length
        = (s.takeWhile (· ≠ 47) ++ s.dropWhile (· ≠ 47)).drop (s.takeWhile (· ≠ 47)).length := by
          rw [List.takeWhile_append_dropWhile]
      _ = s.dropWhile (· ≠ 47) := List.drop_left
  rw [hdrop] at hlevels ⊢
  rw [List.length_append] at hlength
  cases hrest : s.dropWhile (· ≠ 47) with
  | nil =>
      rw [hrest] at hlevels hlength
      exact .inl ⟨rfl, hlevels, hlength⟩
  | cons c rest =>
      rw [hrest] at hlevels hlength
      have hc : ¬(fun a : UInt8 => decide (a ≠ 47)) c = true := by
        have := List.head_dropWhile_not (fun a : UInt8 => decide (a ≠ 47)) (l := s)
          (by rw [hrest]; exact List.cons_ne_nil c rest)
        simpa only [hrest, List.head_cons, Bool.not_eq_true] using this
      obtain rfl : c = 47 := by simpa using hc
      refine .inr ⟨rest, rfl, hlevels, ?_⟩
      rw [List.length_cons] at hlength
      omega

/-! ### The loop -/

theorem matches_cons {level level' : Bytes} {filter topic : List Bytes}
    (hmulti : level ≠ ascii "#") :
    Matches (level :: filter) (level' :: topic) ↔
      (level = ascii "+" ∨ level = level') ∧ Matches filter topic := by
  constructor
  · intro h
    cases h with
    | remaining => exact absurd rfl hmulti
    | single _ h => exact ⟨.inl rfl, h⟩
    | identical _ _ _ h => exact ⟨.inr rfl, h⟩
  · rintro ⟨hlevel, h⟩
    by_cases hsingle : level = ascii "+"
    · subst hsingle
      exact .single level' h
    · obtain rfl := hlevel.resolve_left hsingle
      exact .identical level hmulti hsingle h

theorem parentOf_cons {level level' : Bytes} {filter topic : List Bytes}
    (hmulti : level ≠ ascii "#") (hfilter : filter ≠ []) :
    ParentOf (level :: filter) (level' :: topic) ↔
      (level = ascii "+" ∨ level = level') ∧ ParentOf filter topic := by
  obtain ⟨next, rest, rfl⟩ := List.exists_cons_of_ne_nil hfilter
  rw [ParentOf, ParentOf, List.dropLast_cons_cons, matches_cons hmulti, List.getLast?_cons_cons]
  tauto

theorem not_parentOf_single {level : Bytes} {topic : List Bytes} (hmulti : level ≠ ascii "#") :
    ¬ParentOf [level] topic := by
  intro h
  exact hmulti (Option.some.inj h.1)

/-- Only a number sign matches where the topic name has no level left, as its parent. -/
theorem parentOf_of_matches_nil {filter : List Bytes} (h : Matches filter [])
    (hfilter : filter ≠ []) : ParentOf filter [] := by
  cases h with
  | ended => exact absurd rfl hfilter
  | remaining => exact ⟨rfl, .ended⟩

/-- The loop misses the parent level, and nothing else. -/
theorem topicMatchesLoop_iff {fuel : ℕ} {filter topic : Bytes} (hfuel : filter.length < fuel)
    (hvalid : ValidLevels (levels filter)) :
    topicMatchesLoop fuel filter topic = true ↔
      Matches (levels filter) (levels topic) ∧ ¬ParentOf (levels filter) (levels topic) := by
  induction fuel generalizing filter topic with
  | zero => omega
  | succ fuel ih =>
      obtain ⟨below, hbelow⟩ : ∃ below, levels topic = topic.takeWhile (· ≠ 47) :: below :=
        ⟨_, levels_eq topic⟩
      have hfilter := levels_cases filter
      have htopic := levels_cases topic
      rw [topicMatchesLoop]
      generalize filter.takeWhile (· ≠ 47) = level at *
      generalize topic.takeWhile (· ≠ 47) = level' at *
      by_cases hmulti : level = ascii "#"
      · -- a valid filter has nothing behind the number sign
        have hended : levels filter = [level] ∧ level.length = filter.length := by
          rcases hfilter with ⟨-, hlevels, hlength⟩ | ⟨rest, -, hlevels, -⟩
          · exact ⟨hlevels, hlength⟩
          · rw [hlevels] at hvalid
            have hsign : 35 ∈ level := by rw [hmulti]; decide
            exact absurd (hvalid.1 hsign).2 (levels_ne_nil rest)
        rw [if_pos hmulti, hended.1, hended.2, hmulti, hbelow]
        refine iff_of_true (beq_self_eq_true _) ⟨.remaining _, ?_⟩
        rintro ⟨-, hparent⟩
        cases hparent
      rw [if_neg hmulti]
      by_cases hfits : level = ascii "+" ∨ level = level'
      swap
      · rw [if_pos (not_or.mp hfits)]
        refine iff_of_false Bool.false_ne_true ?_
        rintro ⟨hmatches, -⟩
        rcases hfilter with ⟨-, hlevels, -⟩ | ⟨rest, -, hlevels, -⟩
        · rw [hlevels, hbelow] at hmatches
          exact hfits ((matches_cons hmulti).mp hmatches).1
        · rw [hlevels, hbelow] at hmatches
          exact hfits ((matches_cons hmulti).mp hmatches).1
      rw [if_neg (fun h => hfits.elim h.1 h.2)]
      rcases hfilter with ⟨hdrop, hlevels, -⟩ | ⟨filter', hdrop, hlevels, hlength⟩
      · rcases htopic with ⟨hdrop', hlevels', -⟩ | ⟨topic', hdrop', hlevels', -⟩
        · rw [hdrop, hdrop', hlevels, hlevels', matches_cons hmulti]
          exact iff_of_true rfl ⟨⟨hfits, .ended⟩, not_parentOf_single hmulti⟩
        · rw [hdrop, hdrop', hlevels, hlevels', matches_cons hmulti]
          refine iff_of_false Bool.false_ne_true ?_
          rintro ⟨⟨-, hmatches⟩, -⟩
          generalize hbelow' : levels topic' = below' at hmatches
          cases hmatches
          exact levels_ne_nil topic' hbelow'
      · rcases htopic with ⟨hdrop', hlevels', -⟩ | ⟨topic', hdrop', hlevels', -⟩
        · -- the topic ends first: only its parent level could match
          rw [hdrop, hdrop', hlevels, hlevels', matches_cons hmulti,
            parentOf_cons hmulti (levels_ne_nil filter')]
          refine iff_of_false Bool.false_ne_true ?_
          rintro ⟨⟨-, hmatches⟩, hparent⟩
          exact hparent ⟨hfits, parentOf_of_matches_nil hmatches (levels_ne_nil filter')⟩
        · rw [hdrop, hdrop', hlevels, hlevels', matches_cons hmulti,
            parentOf_cons hmulti (levels_ne_nil filter')]
          rw [hlevels] at hvalid
          have hbelow : topicMatchesLoop fuel filter' topic' = true ↔ _ :=
            ih (by omega) hvalid.2.2
          tauto

theorem topicMatches_iff {filter topic : Bytes} (hvalid : ValidLevels (levels filter)) :
    topicMatches filter topic = true ↔
      Matches (levels filter) (levels topic) ∧ ¬ParentOf (levels filter) (levels topic) :=
  topicMatchesLoop_iff (Nat.lt_succ_self _) hvalid

/-- The function departs from the protocol at the parent level of a final number sign, and
where a leading wildcard meets a topic name that starts with `$`; where both are so, the
two departures cancel out. -/
theorem topicMatches_conforms_iff {filter : Bytes} (hfilter : ValidFilter filter)
    (topic : Bytes) :
    (topicMatches filter topic = true ↔ MatchesTopic filter topic) ↔
      (Matches (levels filter) (levels topic) →
        (ParentOf (levels filter) (levels topic) ↔ Excluded filter topic)) := by
  rw [topicMatches_iff hfilter.2, MatchesTopic]
  tauto

theorem topicMatches_conforms_level :
    topicMatches (ascii "a/+/#") (ascii "a//b/c") = true ↔
      MatchesTopic (ascii "a/+/#") (ascii "a//b/c") := by
  have hvalid : ValidFilter (ascii "a/+/#") := by
    refine ⟨by decide, ?_⟩
    have hlevels : levels (ascii "a/+/#") = [ascii "a", ascii "+", ascii "#"] := by decide
    rw [hlevels]
    refine ⟨?_, ?_, ?_, ?_, ?_, ?_, trivial⟩ <;> decide
  refine (topicMatches_conforms_iff hvalid (ascii "a//b/c")).mpr ?_
  intro _
  refine iff_of_false ?_ (by decide)
  have hlevels : levels (ascii "a/+/#") = [ascii "a", ascii "+", ascii "#"] := by decide
  have hlevels' : levels (ascii "a//b/c") = [ascii "a", [], ascii "b", ascii "c"] := by decide
  rw [hlevels, hlevels']
  rintro ⟨-, hparent⟩
  cases hparent with
  | identical _ _ _ h => cases h with
    | single _ h => cases h

/-- A client that has subscribed to `a/#` drops what arrives under `a`, and one that has
subscribed to `#` takes what another of its filters brings in under `$SYS`. -/
theorem topicMatches_departs :
    (ValidFilter (ascii "a/#") ∧ ValidTopicName (ascii "a") ∧
      topicMatches (ascii "a/#") (ascii "a") = false ∧ MatchesTopic (ascii "a/#") (ascii "a")) ∧
    (ValidFilter (ascii "#") ∧ ValidTopicName (ascii "$SYS") ∧
      topicMatches (ascii "#") (ascii "$SYS") = true ∧
      ¬MatchesTopic (ascii "#") (ascii "$SYS")) := by
  have hlevels : levels (ascii "a/#") = [ascii "a", ascii "#"] := by decide
  have hlevels' : levels (ascii "#") = [ascii "#"] := by decide
  have hparent : levels (ascii "a") = [ascii "a"] := by decide
  refine ⟨⟨⟨by decide, ?_⟩, ⟨by decide, by decide, by decide⟩, by decide, ?_⟩,
    ⟨⟨by decide, ?_⟩, ⟨by decide, by decide, by decide⟩, by decide, ?_⟩⟩
  · rw [hlevels]
    refine ⟨?_, ?_, ?_, ?_, trivial⟩ <;> decide
  · refine ⟨?_, by decide⟩
    rw [hlevels, hparent]
    exact .identical _ (by decide) (by decide) (.remaining _)
  · rw [hlevels']
    refine ⟨?_, ?_, trivial⟩ <;> decide
  · intro h
    exact h.2 (by decide)

end Watchlist.Mqtt
