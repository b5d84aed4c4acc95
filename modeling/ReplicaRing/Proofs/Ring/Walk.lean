import Mathlib.Algebra.Group.Nat.Defs
import Mathlib.Data.List.Basic
import Mathlib.Data.Nat.Basic
import ReplicaRing.Proofs.Ring.Locate

/-! What a walk backward from a key meets in one lap, and the replicas that are chosen from that. -/

namespace ReplicaRing

namespace Peer

def distinct : List Peer → List Peer
  | [] => []
  | peer :: rest => peer :: (distinct rest).filter fun other => other.name ≠ peer.name

theorem distinct_sublist (peers : List Peer) : (distinct peers).Sublist peers := by
  induction peers with
  | nil => exact .slnil
  | cons peer rest ih => exact .cons_cons peer (List.filter_sublist.trans ih)

theorem pairwise_distinct (peers : List Peer) :
    (distinct peers).Pairwise fun first second => first.name ≠ second.name := by
  induction peers with
  | nil => exact .nil
  | cons peer rest ih =>
      refine List.pairwise_cons.mpr ⟨fun other hother => ?_, ih.filter _⟩
      exact (of_decide_eq_true (List.mem_filter.mp hother).2).symm

theorem exists_mem_distinct {peers : List Peer} {peer : Peer} (h : peer ∈ peers) :
    ∃ first ∈ distinct peers, first.name = peer.name := by
  induction peers with
  | nil => cases h
  | cons head rest ih =>
      by_cases hname : peer.name = head.name
      · exact ⟨head, List.mem_cons_self, hname.symm⟩
      · have hne : peer ≠ head := fun heq => hname (congrArg Peer.name heq)
        obtain ⟨first, hfirst, heq⟩ := ih ((List.mem_cons.mp h).resolve_left hne)
        have hkept : first.name ≠ head.name := heq ▸ hname
        exact ⟨first, List.mem_cons_of_mem _ (List.mem_filter.mpr ⟨hfirst, by simpa using hkept⟩),
          heq⟩

theorem distinct_filter {keep : Peer → Bool}
    (hkeep : ∀ first second : Peer, first.name = second.name → keep first = keep second)
    (peers : List Peer) : distinct (peers.filter keep) = (distinct peers).filter keep := by
  induction peers with
  | nil => rfl
  | cons peer rest ih =>
      rw [distinct, List.filter_cons, List.filter_cons]
      split
      case isTrue hkept => rw [distinct, ih, List.filter_comm]
      case isFalse hleft =>
        rw [ih, List.filter_filter]
        refine (List.filter_congr fun other _ => ?_).symm
        by_cases hname : other.name = peer.name
        · simp [hkeep other peer hname, hleft]
        · simp [hname]

end Peer

/-- The tokens in the order in which a walk backward from a key meets them. -/
def Token.lap (key : Position) (tokens : List Token) : List Token :=
  (tokens.filter fun token => token.position ≤ key).reverse ++
    (tokens.filter fun token => key < token.position).reverse

theorem Token.lap_filter (key : Position) (keep : Token → Bool) (tokens : List Token) :
    lap key (tokens.filter keep) = (lap key tokens).filter keep := by
  simp only [lap, List.filter_append, List.filter_reverse, List.filter_comm keep]

theorem Token.mem_lap {key : Position} {tokens : List Token} {token : Token} :
    token ∈ lap key tokens ↔ token ∈ tokens := by
  simp only [lap, List.mem_append, List.mem_reverse, List.mem_filter, decide_eq_true_eq,
    ← and_or_left, and_iff_left_iff_imp]
  intro _
  rw [← BitVec.not_le]
  exact Decidable.em _

namespace Ring

variable {ring : Ring} {key : Position}

theorem Governs.lap_eq {start : Fin ring.size} (h : ring.Governs key start) :
    Token.lap key ring.tokens.toList =
      (ring.tokens.toList.take (start.val + 1)).reverse ++
        (ring.tokens.toList.drop (start.val + 1)).reverse := by
  cases h with
  | last hlast habove =>
      have hall : ∀ token ∈ ring.tokens.toList, key < token.position := by
        intro token htoken
        obtain ⟨index, hindex, rfl⟩ := List.mem_iff_getElem.mp htoken
        exact habove ⟨index, hindex⟩
      have hlength : ring.tokens.toList.length ≤ start.val + 1 := Nat.le_of_eq hlast.symm
      rw [Token.lap, List.take_of_length_le hlength, List.drop_of_length_le hlength,
        List.filter_eq_self.mpr fun token htoken => decide_eq_true (hall token htoken),
        List.filter_eq_nil_iff.mpr fun token htoken => by simpa using hall token htoken]
      simp
  | below hbelow habove =>
      have hfirst : ∀ token ∈ ring.tokens.toList.take (start.val + 1), token.position ≤ key := by
        intro token htoken
        obtain ⟨index, hindex, rfl⟩ := List.mem_take_iff_getElem.mp htoken
        have hle : ring.position ⟨index, by omega⟩ ≤ ring.position start :=
          position_le (Fin.mk_le_of_le_val (by omega))
        exact BitVec.le_trans hle hbelow
      have hrest : ∀ token ∈ ring.tokens.toList.drop (start.val + 1), key < token.position := by
        intro token htoken
        obtain ⟨index, hindex, rfl⟩ := List.mem_drop_iff_getElem.mp htoken
        have hlength : ring.tokens.toList.length = ring.size := Array.length_toList
        have hlt : start.val + 1 + index < ring.size := by omega
        exact habove ⟨start.val + 1 + index, hlt⟩ (Fin.lt_def.mpr (by simp only; omega))
      conv_lhs => rw [← List.take_append_drop (start.val + 1) ring.tokens.toList]
      rw [Token.lap, List.filter_append, List.filter_append,
        List.filter_eq_self.mpr fun token htoken => decide_eq_true (hfirst token htoken),
        List.filter_eq_nil_iff.mpr fun token htoken => by simpa using hrest token htoken,
        List.filter_eq_nil_iff.mpr fun token htoken => by simpa using hfirst token htoken,
        List.filter_eq_self.mpr fun token htoken => decide_eq_true (hrest token htoken),
        List.append_nil, List.nil_append]

private theorem back_of_le {start : Fin ring.size} {steps : Nat} (h : steps ≤ start.val) :
    (ring.back start steps).val = start.val - steps := by
  have hstart := start.isLt
  rw [back, Fin.val_mk, show start.val + ring.size - steps = start.val - steps + ring.size by omega,
    Nat.add_mod_right, Nat.mod_eq_of_lt (by omega)]

private theorem back_of_gt {start : Fin ring.size} {steps : Nat} (h : start.val < steps) :
    (ring.back start steps).val = start.val + ring.size - steps := by
  have hstart := start.isLt
  exact Nat.mod_eq_of_lt (by omega)

private theorem map_back (ring : Ring) (start : Fin ring.size) :
    (List.range ring.size).map (fun steps => ring.tokens[ring.back start steps]) =
      (ring.tokens.toList.take (start.val + 1)).reverse ++
        (ring.tokens.toList.drop (start.val + 1)).reverse := by
  have hstart := start.isLt
  have hsize : ring.tokens.size = ring.size := rfl
  have htake : (ring.tokens.toList.take (start.val + 1)).reverse.length = start.val + 1 := by
    rw [List.length_reverse, List.length_take, Array.length_toList, hsize]
    omega
  have hlength : ((List.range ring.size).map fun steps => ring.tokens[ring.back start steps]).length =
      ((ring.tokens.toList.take (start.val + 1)).reverse ++
        (ring.tokens.toList.drop (start.val + 1)).reverse).length := by
    rw [List.length_map, List.length_range, List.length_append, htake, List.length_reverse,
      List.length_drop, Array.length_toList, hsize]
    omega
  refine List.ext_getElem hlength fun steps hsteps _ => ?_
  have hsteps : steps < ring.size := by simpa using hsteps
  rw [List.getElem_append, List.getElem_map, List.getElem_range]
  split
  case isTrue hbefore =>
    have hle : steps ≤ start.val := by omega
    simp only [Fin.getElem_fin, back_of_le hle, List.getElem_reverse, List.getElem_take,
      Array.getElem_toList, List.length_take, Array.length_toList]
    congr 1
    omega
  case isFalse hafter =>
    have hlt : start.val < steps := by omega
    simp only [Fin.getElem_fin, back_of_gt hlt, List.getElem_reverse, List.getElem_drop,
      Array.getElem_toList, htake, List.length_drop, Array.length_toList]
    congr 1
    omega

/-- The choice takes the owners that are new, as many as are still wanted. -/
theorem choose_eq (ring : Ring) (start : Fin ring.size) (copies : Nat) (steps : List Nat)
    {chosen : List Peer} (h : chosen.length ≤ copies) :
    ring.choose start copies steps chosen = chosen ++
      ((Peer.distinct (steps.map fun step => ring.owner (ring.back start step))).filter
        fun peer => !chosen.any fun other => other.name == peer.name).take
          (copies - chosen.length) := by
  induction steps generalizing chosen with
  | nil => simp [choose, Peer.distinct]
  | cons step rest ih =>
      rw [choose, List.map_cons, Peer.distinct]
      generalize ring.owner (ring.back start step) = peer
      split
      case isTrue hdone =>
        rw [Nat.sub_eq_zero_of_le hdone, List.take_zero, List.append_nil]
      case isFalse hwanted =>
        simp only
        split
        case isTrue hmet =>
          rw [ih h, List.filter_cons_of_neg (by simp only [hmet]; decide), List.filter_filter]
          congr 2
          refine List.filter_congr fun other _ => ?_
          by_cases hname : other.name = peer.name
          · simp only [hname, hmet, Bool.not_true, Bool.false_and]
          · simp only [hname, ne_eq, not_false_eq_true, decide_true, Bool.and_true]
        case isFalse hnew =>
          have hroom : copies - chosen.length = copies - (chosen ++ [peer]).length + 1 := by
            rw [List.length_append, List.length_singleton]
            omega
          rw [ih (by rw [List.length_append, List.length_singleton]; omega),
            List.filter_cons_of_pos (by simp only [hnew]; decide), hroom, List.take_succ_cons,
            List.append_assoc, List.singleton_append, List.filter_filter]
          congr 3
          refine List.filter_congr fun other _ => ?_
          by_cases hname : other.name = peer.name
          · simp [hname]
          · simp [hname, Ne.symm hname]

/-- The owners of tokens, each once, in the order in which a walk backward from a key meets them. -/
def walk (ring : Ring) (key : Position) : List Peer :=
  Peer.distinct ((Token.lap key ring.tokens.toList).map Token.owner)

theorem walk_nodup (ring : Ring) (key : Position) : (ring.walk key).Nodup :=
  (Peer.pairwise_distinct _).imp fun hne heq => hne (congrArg Peer.name heq)

theorem select_eq (ring : Ring) (key : Position) (copies : Nat) (hsize : 0 < ring.size) :
    ring.select key copies = .ok ((ring.walk key).take copies) := by
  obtain ⟨start, hstart, hgoverns⟩ := ring.locate_governs key hsize
  have howners : (List.range ring.size).map (fun steps => ring.owner (ring.back start steps)) =
      (Token.lap key ring.tokens.toList).map Token.owner := by
    rw [hgoverns.lap_eq, ← ring.map_back start, List.map_map]
    rfl
  have hnone : ([] : List Peer).length ≤ copies := Nat.zero_le _
  have hchoice := ring.choose_eq start copies (List.range ring.size) hnone
  rw [howners, ← walk] at hchoice
  rw [select, hstart]
  simpa [Except.map] using hchoice

theorem select_of_size_eq_zero (h : ring.size = 0) (key : Position) (copies : Nat) :
    ring.select key copies = .error .empty := by
  rw [select, locate_of_size_eq_zero h]
  rfl

private theorem hasRoom_iff {copies : Nat} : hasRoom copies = true ↔ copies < 2 ^ 60 := by
  rw [hasRoom, decide_eq_true_iff, maxBytes]
  omega

theorem replicas_eq_select {copies : Nat} (key : Position) (h : copies < 2 ^ 60) :
    ring.replicas key copies = some (ring.select key copies) := by
  rw [replicas, select]
  cases ring.locate key with
  | error error => rfl
  | ok start => exact if_pos (hasRoom_iff.mpr h)

theorem replicas_of_size_eq_zero (h : ring.size = 0) (key : Position) (copies : Nat) :
    ring.replicas key copies = some (.error .empty) := by
  rw [replicas, locate_of_size_eq_zero h]

theorem replicas_of_lt {copies : Nat} (key : Position) (hsize : 0 < ring.size)
    (h : copies < 2 ^ 60) : ring.replicas key copies = some (.ok ((ring.walk key).take copies)) := by
  rw [replicas_eq_select key h, ring.select_eq key copies hsize]

theorem replicas_of_le {copies : Nat} (key : Position) (hsize : 0 < ring.size)
    (h : 2 ^ 60 ≤ copies) : ring.replicas key copies = none := by
  obtain ⟨start, hstart, -⟩ := ring.locate_governs key hsize
  have hroom : ¬hasRoom copies = true := fun hroom => Nat.not_lt_of_le h (hasRoom_iff.mp hroom)
  rw [replicas, hstart]
  exact if_neg hroom

end Ring

end ReplicaRing
