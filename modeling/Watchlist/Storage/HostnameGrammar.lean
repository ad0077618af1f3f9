import Watchlist.Library.Parts
import Watchlist.Storage.DatabaseItem

/-!
What `IsValidHostname` accepts: labels with dots between them, of which not all bytes are
digits and dots. The validator is stated again as the loop over `find` that it is, with a
bound on the rounds.
-/

namespace Watchlist.Storage

open Bytes

/-! ### The grammar -/

structure HostLabel (label : Bytes) : Prop where
  length : 1 ≤ label.length ∧ label.length ≤ 63
  bytes : ∀ c ∈ label, isAlnum c = true ∨ c = 45
  first : ∀ c ∈ label.head?, isAlnum c = true
  last : ∀ c ∈ label.getLast?, isAlnum c = true

/-- At most 253 bytes: labels with dots between them and perhaps one at the end, with a
byte that is neither a digit nor a dot. -/
def Hostname (s : Bytes) : Prop :=
  (1 ≤ s.length ∧ s.length ≤ 253) ∧
    ∃ labels : List Bytes, labels ≠ [] ∧ (∀ label ∈ labels, HostLabel label) ∧
      (s = join 46 labels ∨ s = join 46 labels ++ [46]) ∧
        ∃ c ∈ join 46 labels, isDigit c = false ∧ c ≠ 46

/-! ### The loop of the source -/

/-- A round of `IsValidHostname`. -/
def hostnameRound (_ : Unit) (label : Bytes) (_last : Bool) : Option Unit :=
  if isValidLabel label then some () else none

/-- The name without a dot at its end. -/
def withoutDot (hostname : Bytes) : Bytes :=
  if hostname.getLast? = some 46 then hostname.dropLast else hostname

/-- `IsValidHostname`, unless the fuel runs out. -/
def isValidHostnameRun (fuel : ℕ) (hostname : Bytes) : Option Bool :=
  if hostname.isEmpty || 253 < hostname.length then some false
  else if (withoutDot hostname).isEmpty then some false
  else if (withoutDot hostname).all fun c => isDigit c || c == 46 then some false
  else (partsLoop 46 (withoutDot hostname) hostnameRound fuel 0 ()).map Option.isSome

theorem isValidHostname_eq (hostname : Bytes) :
    isValidHostname hostname =
      if hostname.isEmpty || 253 < hostname.length then false
      else if (withoutDot hostname).isEmpty then false
      else if (withoutDot hostname).all fun c => isDigit c || c == 46 then false
      else (split 46 (withoutDot hostname)).all isValidLabel := rfl

theorem all_isValidLabel_eq (labels : List Bytes) :
    labels.all isValidLabel = (foldParts hostnameRound labels ()).isSome := by
  induction labels with
  | nil => rfl
  | cons label rest ih =>
      rw [List.all_cons, foldParts, hostnameRound]
      cases isValidLabel label with
      | true => exact ih
      | false => rfl

theorem isValidHostnameRun_eq {fuel : ℕ} {hostname : Bytes} (h : hostname.length < fuel) :
    isValidHostnameRun fuel hostname = some (isValidHostname hostname) := by
  have hshorter : (withoutDot hostname).length ≤ hostname.length := by
    unfold withoutDot
    split
    · rw [List.length_dropLast]
      omega
    · exact le_rfl
  rw [isValidHostnameRun, isValidHostname_eq]
  split
  · rfl
  · split
    · rfl
    · split
      · rfl
      · rw [partsLoop_eq (Nat.zero_le _) (by omega), List.drop_zero, Option.map_some,
          all_isValidLabel_eq]

/-! ### Labels -/

theorem hostLabel_iff {label : Bytes} : isValidLabel label = true ↔ HostLabel label := by
  unfold isValidLabel
  cases label with
  | nil => exact iff_of_false Bool.false_ne_true fun h => absurd h.length.1 (by simp)
  | cons c rest =>
      obtain ⟨last, hlast⟩ : ∃ last, (c :: rest).getLast? = some last :=
        ⟨_, List.getLast?_eq_some_getLast (List.cons_ne_nil c rest)⟩
      rw [hlast]
      constructor
      · intro h
        split at h
        · cases h
        · rename_i hends
          simp only [List.isEmpty_cons, List.head?_cons, Option.any_some, Bool.false_or,
            Bool.or_eq_true, decide_eq_true_eq, Bool.not_eq_true', not_or, not_lt,
            Bool.not_eq_false] at hends
          obtain ⟨⟨hlength, hfirst⟩, hend⟩ := hends
          refine ⟨⟨Nat.succ_pos _, hlength⟩, fun d hd => ?_, ?_, ?_⟩
          · have hbyte := List.all_eq_true.mp h d hd
            simpa using hbyte
          · rintro d hd
            obtain rfl := Option.some.inj hd
            exact hfirst
          · rintro d hd
            rw [hlast] at hd
            obtain rfl := Option.some.inj hd
            exact hend
      · intro h
        have hfirst : isAlnum c = true := h.first c rfl
        have hend : isAlnum last = true := h.last last hlast
        have hlength := h.length.2
        rw [if_neg (by simpa [hfirst, hend] using hlength), List.all_eq_true]
        intro d hd
        simpa using h.bytes d hd

theorem HostLabel.not_mem {label : Bytes} (h : HostLabel label) : 46 ∉ label := by
  intro hmem
  rcases h.bytes 46 hmem with hdot | hdot <;> exact absurd hdot (by decide)

/-- A list of labels does not end with a dot. -/
theorem getLast_join {labels : List Bytes} (hlabels : ∀ label ∈ labels, HostLabel label)
    (hne : labels ≠ []) : (join 46 labels).getLast? ≠ some 46 := by
  intro hdot
  obtain ⟨a, ha⟩ := List.getLast?_eq_some_iff.mp hdot
  have hsplit : labels = split 46 a ++ [[]] := by
    calc labels = split 46 (join 46 labels) :=
          (split_join (fun label hlabel => (hlabels label hlabel).not_mem) hne).symm
      _ = split 46 (a ++ 46 :: []) := by rw [ha]
      _ = split 46 a ++ split 46 [] := List.splitOn_append_cons_self a []
  have hempty : [] ∈ labels := by
    rw [hsplit]
    exact List.mem_append_right _ List.mem_cons_self
  exact absurd (hlabels [] hempty).length.1 (by simp)

/-! ### Hostnames -/

theorem eq_of_withoutDot (hostname : Bytes) :
    hostname = withoutDot hostname ∨ hostname = withoutDot hostname ++ [46] := by
  unfold withoutDot
  split
  · rename_i hdot
    exact Or.inr (List.dropLast_append_getLast? 46 hdot).symm
  · exact Or.inl rfl

@[simp] theorem withoutDot_append (body : Bytes) : withoutDot (body ++ [46]) = body := by
  rw [withoutDot, if_pos List.getLast?_concat, List.dropLast_concat]

theorem isValidHostname_eq_true {hostname : Bytes} :
    isValidHostname hostname = true ↔
      (1 ≤ hostname.length ∧ hostname.length ≤ 253) ∧ withoutDot hostname ≠ [] ∧
        (∃ c ∈ withoutDot hostname, isDigit c = false ∧ c ≠ 46) ∧
          ∀ label ∈ split 46 (withoutDot hostname), HostLabel label := by
  rw [isValidHostname_eq]
  split
  · rename_i hlength
    rw [Bool.or_eq_true, List.isEmpty_iff, decide_eq_true_eq] at hlength
    refine iff_of_false Bool.false_ne_true fun h => ?_
    rcases hlength with rfl | hlong
    · exact absurd h.1.1 (by simp)
    · exact absurd h.1.2 (by omega)
  · rename_i hlength
    rw [Bool.or_eq_true, List.isEmpty_iff, decide_eq_true_eq, not_or, not_lt] at hlength
    rw [and_iff_right ⟨List.length_pos_iff.mpr hlength.1, hlength.2⟩]
    split
    · rename_i hempty
      exact iff_of_false Bool.false_ne_true fun h => h.1 (List.isEmpty_iff.mp hempty)
    · rename_i hne
      rw [and_iff_right fun h => hne (List.isEmpty_iff.mpr h)]
      split
      · rename_i hnumeric
        refine iff_of_false Bool.false_ne_true ?_
        rintro ⟨⟨c, hc, hdigit, hdot⟩, -⟩
        have hbyte := List.all_eq_true.mp hnumeric c hc
        simp [hdigit, hdot] at hbyte
      · rename_i hbyte
        have hother : ∃ c ∈ withoutDot hostname, isDigit c = false ∧ c ≠ 46 := by
          simpa using hbyte
        rw [and_iff_right hother, List.all_eq_true]
        exact forall₂_congr fun label _ => hostLabel_iff

theorem isValidHostname_iff {hostname : Bytes} :
    isValidHostname hostname = true ↔ Hostname hostname := by
  rw [isValidHostname_eq_true]
  constructor
  · rintro ⟨hlength, hne, hbyte, hlabels⟩
    refine ⟨hlength, split 46 (withoutDot hostname), List.splitOn_ne_nil 46 _, hlabels, ?_⟩
    rw [join_split]
    exact ⟨eq_of_withoutDot hostname, hbyte⟩
  · rintro ⟨hlength, labels, hne, hlabels, hjoin, hbyte⟩
    have hbody : withoutDot hostname = join 46 labels := by
      rcases hjoin with rfl | rfl
      · exact if_neg (getLast_join hlabels hne)
      · exact withoutDot_append _
    rw [hbody, split_join (fun label hlabel => (hlabels label hlabel).not_mem) hne]
    have hne : join 46 labels ≠ [] := by
      obtain ⟨c, hc, -⟩ := hbyte
      exact List.ne_nil_of_mem hc
    exact ⟨hlength, hne, hbyte, hlabels⟩

/-- Digits and dots alone are no hostname, so no malformed dotted decimal is one. -/
theorem Hostname.not_numeric {s : Bytes} (h : Hostname s) :
    ¬∀ c ∈ s, isDigit c = true ∨ c = 46 := by
  obtain ⟨-, labels, -, -, hjoin, c, hc, hdigit, hdot⟩ := h
  intro hall
  have hmem : c ∈ s := by
    rcases hjoin with rfl | rfl
    · exact hc
    · exact List.mem_append_left _ hc
  rcases hall c hmem with hc | hc
  · rw [hdigit] at hc
    cases hc
  · exact hdot hc

/-- The validator ends, and accepts exactly the hostnames. -/
theorem isValidHostname_exact (hostname : Bytes) :
    (isValidHostname hostname = true ↔ Hostname hostname) ∧
      (isValidHostname hostname = true → ¬∀ c ∈ hostname, isDigit c = true ∨ c = 46) ∧
      ∀ fuel, hostname.length < fuel →
        isValidHostnameRun fuel hostname = some (isValidHostname hostname) :=
  ⟨isValidHostname_iff, fun h => (isValidHostname_iff.mp h).not_numeric,
    fun _ hfuel => isValidHostnameRun_eq hfuel⟩

end Watchlist.Storage
