import Mathlib.Data.Finset.Card
import Mathlib.Data.List.Rotate
import ReplicaRing.Proofs.Ring.Lookup
import ReplicaRing.Proofs.Ring.Walk

/-!
The replicas of a key against one lap around the ring: going backward from the token of the key, the
owners that are met for the first time.  From `2 ^ 60` copies on there is no room for them, and nothing
comes back.
-/

namespace ReplicaRing

namespace Peer

private theorem nodup_names_distinct (peers : List Peer) : ((distinct peers).map Peer.name).Nodup :=
  List.pairwise_map.mpr (pairwise_distinct peers)

private theorem length_distinct (peers : List Peer) :
    (distinct peers).length = (peers.map Peer.name).toFinset.card := by
  have hsame : ((distinct peers).map Peer.name).toFinset = (peers.map Peer.name).toFinset := by
    ext name
    rw [List.mem_toFinset, List.mem_toFinset, List.mem_map, List.mem_map]
    constructor
    · rintro ⟨peer, hpeer, hname⟩
      exact ⟨peer, (distinct_sublist peers).subset hpeer, hname⟩
    · rintro ⟨peer, hpeer, rfl⟩
      exact exists_mem_distinct hpeer
  rw [← hsame, List.toFinset_card_of_nodup (nodup_names_distinct peers), List.length_map]

end Peer

namespace Ring

variable {tokens : List Token} {ring : Ring} {key : Position} {start : Fin ring.size}

/-- The owners met in one full lap backward from an index, the last token coming after the first. -/
def lapFrom (ring : Ring) (start : Fin ring.size) : List Peer :=
  (ring.tokens.toList.rotate (start.val + 1)).reverse.map Token.owner

private theorem perm_lapFrom (ring : Ring) (start : Fin ring.size) :
    (ring.lapFrom start).Perm (ring.tokens.toList.map Token.owner) :=
  ((List.reverse_perm _).trans (List.rotate_perm _ _)).map _

private theorem lapFrom_eq_cons (ring : Ring) (start : Fin ring.size) :
    ∃ rest, ring.lapFrom start = ring.owner start :: rest := by
  have hlength : ring.tokens.toList.length = ring.size := Array.length_toList
  have hlast : ring.tokens.toList.take (start.val + 1) =
      ring.tokens.toList.take start.val ++ [ring.tokens[start]] := by
    rw [List.take_succ_eq_append_getElem (by omega), Array.getElem_toList]
    rfl
  rw [lapFrom, List.rotate_eq_drop_append_take (by omega), hlast, ← List.append_assoc,
    List.reverse_append, List.map_append]
  exact ⟨_, rfl⟩

private theorem Governs.walk_eq (h : ring.Governs key start) :
    ring.walk key = Peer.distinct (ring.lapFrom start) := by
  have hlength : ring.tokens.toList.length = ring.size := Array.length_toList
  rw [walk, h.lap_eq, lapFrom, List.rotate_eq_drop_append_take (by omega), List.reverse_append]

private theorem length_distinct_lapFrom (h : ofTokens tokens = .ok ring) (start : Fin ring.size) :
    (Peer.distinct (ring.lapFrom start)).length =
      (tokens.map fun token => token.owner.name).toFinset.card := by
  have hperm : ((ring.lapFrom start).map Peer.name).Perm
      (tokens.map fun token => token.owner.name) := by
    have howners := (ring.perm_lapFrom start).trans ((perm_of_ofTokens h).map Token.owner)
    have hnames := howners.map Peer.name
    rwa [List.map_map] at hnames
  rw [Peer.length_distinct, List.toFinset_eq_of_perm _ _ hperm]

/-- The replicas of a key are the first of the owners that one lap backward from its token meets, each
name once: as many as are wanted, if there are so many, the primary before all others, and for fewer
copies the first of the same peers.  A ring with tokens gives them up to the number of copies for which
no list has room, and nothing from there on. -/
theorem replicas_exact (h : ofTokens tokens = .ok ring) (key : Position) :
    (tokens = [] → ∀ copies, ring.replicas key copies = some (.error .empty)) ∧
      (tokens ≠ [] → ∃ start, ring.locate key = .ok start ∧
        (∀ copies, 2 ^ 60 ≤ copies → ring.replicas key copies = none) ∧
        ∀ copies, copies < 2 ^ 60 → ∃ replicas, ring.replicas key copies = some (.ok replicas) ∧
          replicas = (Peer.distinct (ring.lapFrom start)).take copies ∧
          (replicas.map Peer.name).Nodup ∧
          replicas.length = min copies (tokens.map fun token => token.owner.name).toFinset.card ∧
          (0 < copies → ∃ primary, ring.primary key = .ok primary ∧ replicas.head? = some primary) ∧
          ∀ fewer, fewer ≤ copies →
            ∃ few, ring.replicas key fewer = some (.ok few) ∧ few <+: replicas) := by
  have hsize : ring.size = tokens.length := (perm_of_ofTokens h).length_eq
  refine ⟨fun hnone copies => ?_, fun hsome => ?_⟩
  · rw [hnone] at hsize
    exact replicas_of_size_eq_zero hsize key copies
  have hpos : 0 < ring.size := hsize ▸ List.length_pos_of_ne_nil hsome
  obtain ⟨start, hlocate, hgoverns⟩ := ring.locate_governs key hpos
  have hreplicas : ∀ copies, copies < 2 ^ 60 → ring.replicas key copies =
      some (.ok ((Peer.distinct (ring.lapFrom start)).take copies)) := by
    intro copies hroom
    rw [replicas_of_lt key hpos hroom, hgoverns.walk_eq]
  refine ⟨start, hlocate, fun copies hcopies => replicas_of_le key hpos hcopies, fun copies hroom =>
    ⟨_, hreplicas copies hroom, rfl, ?_, ?_, fun hcopies => ?_, ?_⟩⟩
  · exact (Peer.nodup_names_distinct _).sublist ((List.take_sublist _ _).map _)
  · rw [List.length_take, length_distinct_lapFrom h]
  · refine ⟨ring.owner start, ?_, ?_⟩
    · rw [primary, hlocate]
      rfl
    · obtain ⟨rest, hrest⟩ := ring.lapFrom_eq_cons start
      rw [hrest, Peer.distinct, List.head?_take, if_neg (Nat.ne_of_gt hcopies)]
      rfl
  · intro fewer hfewer
    exact ⟨_, hreplicas fewer (Nat.lt_of_le_of_lt hfewer hroom), List.take_prefix_take_left hfewer⟩

end Ring

namespace Weave

/-! Two peers whose tokens alternate on the ring. -/

def first : Peer := ⟨"a", .localhost 1, 2⟩

def second : Peer := ⟨"b", .localhost 2, 1⟩

def tokens : List Token := [⟨first, 1, 300⟩, ⟨first, 0, 100⟩, ⟨second, 0, 200⟩]

def ring : Ring := ⟨#[⟨first, 0, 100⟩, ⟨second, 0, 200⟩, ⟨first, 1, 300⟩], by decide⟩

private theorem ofTokens_tokens : Ring.ofTokens tokens = .ok ring :=
  Ring.ofTokens_of_perm ring.sorted (@List.perm_append_comm _ [_] [_, _])

/-- A lap from the token at 200 meets `b`, then `a` at 100 and, past the end, `a` again at 300. -/
theorem replicas_exact_of_weave :
    Ring.ofTokens tokens = .ok ring ∧ ring.replicas 250 1 = some (.ok [second]) ∧
      ring.replicas 250 3 = some (.ok [second, first]) ∧ ring.replicas 250 (2 ^ 60) = none := by
  obtain ⟨-, hsome⟩ := Ring.replicas_exact ofTokens_tokens 250
  obtain ⟨start, hlocate, hexcess, hcopies⟩ := hsome (by decide)
  obtain ⟨one, hone, rfl, -⟩ := hcopies 1 (by decide)
  obtain ⟨three, hthree, rfl, -⟩ := hcopies 3 (by decide)
  have hstart : start = ⟨1, by decide⟩ := by
    obtain ⟨index, hindex, hgoverns⟩ := ring.locate_governs 250 (by decide)
    obtain rfl : start = index := Except.ok.inj (hlocate.symm.trans hindex)
    exact Fin.ext hgoverns.val_eq
  subst hstart
  exact ⟨ofTokens_tokens, hone, hthree, hexcess _ (Nat.le_refl _)⟩

/-- The two peers are what there is for so many copies, and yet nothing comes back. -/
theorem no_replicas_of_excess :
    Ring.ofTokens tokens = .ok ring ∧
      (Peer.distinct (ring.lapFrom ⟨1, by decide⟩)).take (2 ^ 60) = [second, first] ∧
      ¬∃ replicas, ring.replicas 250 (2 ^ 60) = some (.ok replicas) := by
  have hlap : Peer.distinct (ring.lapFrom ⟨1, by decide⟩) = [second, first] := by decide
  refine ⟨ofTokens_tokens, ?_, ?_⟩
  · rw [hlap]
    exact List.take_of_length_le (by decide)
  · rintro ⟨replicas, hreplicas⟩
    rw [Ring.replicas_of_le 250 (by decide) (Nat.le_refl _)] at hreplicas
    cases hreplicas

end Weave

end ReplicaRing
