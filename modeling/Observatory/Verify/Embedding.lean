import Observatory.Model.Ssrf

/-!
# IPv4 addresses inside IPv6 ones

Every way of carrying an IPv4 address in an IPv6 one has a network of its own (`Embedding.network`).
Three of the four are inside a blocked network, whatever address they carry; the fourth, 6to4, meets
none of them (`ipIsBlocked_embedded_iff`).  Whether a network is inside another, or meets it, is read
off the two prefixes, so that the tables of `ssrf.py` are only ever evaluated.
-/

namespace Observatory

namespace IpAddress.Network

variable {net net' : Network} {base ip ip' : BitVec 128} {m n : Nat}

theorem contains_v6 : Network.contains ⟨.v6 base, n⟩ (.v6 ip) = true ↔
    ip >>> (128 - n) = base >>> (128 - n) := decide_eq_true_iff

/-- Addresses that agree on a number of bits agree on any smaller one. -/
theorem shiftRight_eq_of_le (hmn : m ≤ n) (h : ip >>> (128 - n) = ip' >>> (128 - n)) :
    ip >>> (128 - m) = ip' >>> (128 - m) := by
  have hsplit : 128 - m = 128 - n + (128 - m - (128 - n)) := by omega
  rw [hsplit, BitVec.shiftRight_add, BitVec.shiftRight_add, h]

/-- `net'` is a part of `net`. -/
def covers (net net' : Network) : Bool :=
  net.prefixlen ≤ net'.prefixlen && net.contains net'.address

/-- No address is in both. -/
def apart (net net' : Network) : Bool :=
  !Network.contains ⟨net.address, min net.prefixlen net'.prefixlen⟩ net'.address

theorem contains_of_covers (h : net.covers net' = true) (hip : net'.contains (.v6 ip) = true) :
    net.contains (.v6 ip) = true := by
  obtain ⟨base, n⟩ := net
  obtain ⟨base', n'⟩ := net'
  obtain ⟨hlen, hbase⟩ := Bool.and_eq_true_iff.1 h
  have hle : n ≤ n' := of_decide_eq_true hlen
  cases base' with
  | v4 b => cases hip
  | v6 b' =>
    cases base with
    | v4 b => cases hbase
    | v6 b =>
      rw [contains_v6] at hip hbase ⊢
      rw [shiftRight_eq_of_le hle hip, hbase]

theorem not_contains_of_apart (h : net.apart net' = true) (hip : net'.contains (.v6 ip) = true) :
    net.contains (.v6 ip) = false := by
  obtain ⟨base, n⟩ := net
  obtain ⟨base', n'⟩ := net'
  cases base' with
  | v4 b => cases hip
  | v6 b' =>
    cases base with
    | v4 b => rfl
    | v6 b =>
      rw [Bool.eq_false_iff]
      intro hnet
      rw [contains_v6] at hip hnet
      have hmeet : Network.contains ⟨.v6 b, min n n'⟩ (.v6 b') = true := by
        rw [contains_v6]
        rw [← shiftRight_eq_of_le (Nat.min_le_right n n') hip]
        exact shiftRight_eq_of_le (Nat.min_le_left n n') hnet
      rw [apart, hmeet] at h
      cases h

end IpAddress.Network

namespace IpAddress

variable {net : Network} {nets : List String} {ip : BitVec 128}

theorem within_of_covers (h : (nets.filterMap Network.ofText).any (·.covers net) = true)
    (hip : net.contains (.v6 ip) = true) : within (.v6 ip) nets = true := by
  obtain ⟨net', hmem, hcov⟩ := List.any_eq_true.1 h
  exact List.any_eq_true.2 ⟨net', hmem, Network.contains_of_covers hcov hip⟩

theorem not_within_of_apart (h : (nets.filterMap Network.ofText).all (·.apart net) = true)
    (hip : net.contains (.v6 ip) = true) : within (.v6 ip) nets = false := by
  refine List.any_eq_false.2 fun net' hmem => Bool.not_eq_true _ ▸ ?_
  exact Network.not_contains_of_apart (List.all_eq_true.1 h net' hmem) hip

end IpAddress

namespace Ssrf

open IpAddress

/-! ## Carried addresses -/

/-- The standard ways of carrying an IPv4 address; a 6to4 address has room for more bits. -/
inductive Embedding where
  | mapped
  | compatible
  | nat64
  | sixToFour (rest : BitVec 80)
deriving DecidableEq

namespace Embedding

/-- `::ffff:a`, `::a`, `64:ff9b::a` and `2002:a::/48`. -/
def address : Embedding → BitVec 32 → BitVec 128
  | mapped, a => 0xffff#96 ++ a
  | compatible, a => 0#96 ++ a
  | nat64, a => 0x64ff9b0000000000000000#96 ++ a
  | sixToFour rest, a => 0x2002#16 ++ (a ++ rest)

/-- `2002::/16` -/
def sixToFourNetwork : Network := ⟨.v6 0x20020000000000000000000000000000#128, 16⟩

/-- Where the addresses of a form are. -/
def network : Embedding → Network
  | mapped => ⟨.v6 0xffff00000000#128, 96⟩
  | compatible => ⟨.v6 0#128, 96⟩
  | nat64 => ⟨.v6 0x64ff9b000000000000000000000000#128, 96⟩
  | sixToFour _ => sixToFourNetwork

theorem append_shiftRight {v w : Nat} (x : BitVec v) (y : BitVec w) :
    (x ++ y) >>> w = x.setWidth (v + w) := by
  apply BitVec.eq_of_getLsbD_eq
  intro i hi
  rw [BitVec.getLsbD_ushiftRight, BitVec.getLsbD_append, if_neg (by omega),
    BitVec.getLsbD_setWidth, Nat.add_sub_cancel_left]
  simp only [hi, decide_true, Bool.true_and]

theorem address_mem (e : Embedding) (a : BitVec 32) :
    e.network.contains (.v6 (e.address a)) = true := by
  cases e with
  | mapped => exact Network.contains_v6.2 (append_shiftRight 0xffff#96 a)
  | compatible => exact Network.contains_v6.2 (append_shiftRight 0#96 a)
  | nat64 => exact Network.contains_v6.2 (append_shiftRight 0x64ff9b0000000000000000#96 a)
  | sixToFour rest => exact Network.contains_v6.2 (append_shiftRight 0x2002#16 (a ++ rest))

end Embedding

/-! ## What is blocked -/

variable {text : String} {ip : BitVec 128} {e : Embedding} {a : BitVec 32}

/-- The metadata hosts are no IPv6 addresses. -/
theorem not_metadata_of_v6 (h : IpAddress.ofText text = some (.v6 ip)) : text ∉ metadataHosts := by
  have hnone : ∀ host ∈ metadataHosts, parseV6 host.toList = none := by decide
  intro hmem
  rw [IpAddress.ofText, hnone text hmem] at h
  split at h
  · cases h
  · cases h

theorem isV4Mapped_eq_contains :
    isV4Mapped (.v6 ip) = Embedding.mapped.network.contains (.v6 ip) := rfl

/-- What `ip_is_blocked` asks of an IPv6 address. -/
theorem ipIsBlocked_v6 (h : IpAddress.ofText text = some (.v6 ip)) :
    ipIsBlocked text = (isV4Mapped (.v6 ip) || isLoopback (.v6 ip) || isLinkLocal (.v6 ip) ||
      isMulticast (.v6 ip) || isUnspecified (.v6 ip) || isReserved (.v6 ip) ||
      within (.v6 ip) blockedNetworks) := by
  rw [ipIsBlocked, h]
  simp only [not_metadata_of_v6 h, decide_false, Bool.false_or]

theorem sixToFour_not_blocked {rest : BitVec 80}
    (h : IpAddress.ofText text = some (.v6 (Embedding.address (.sixToFour rest) a))) :
    ipIsBlocked text = false := by
  have hmem : Embedding.sixToFourNetwork.contains (.v6 (Embedding.address (.sixToFour rest) a)) :=
    (Embedding.sixToFour rest).address_mem a
  have hmapped : isV4Mapped (.v6 (Embedding.address (.sixToFour rest) a)) = false := by
    rw [isV4Mapped_eq_contains]
    exact Network.not_contains_of_apart (by rfl) hmem
  rw [ipIsBlocked_v6 h, hmapped, isLoopback, isLinkLocal, isMulticast, isUnspecified, isReserved,
    not_within_of_apart (by rfl) hmem, not_within_of_apart (by rfl) hmem,
    not_within_of_apart (by rfl) hmem, not_within_of_apart (by rfl) hmem,
    not_within_of_apart (by rfl) hmem, not_within_of_apart (by rfl) hmem]
  rfl

/-- **Addresses stay blocked inside IPv6 ones, except inside 6to4 ones.**  However it is written, an
IPv4-mapped, an IPv4-compatible and a NAT64 address is blocked; a 6to4 address never is. -/
theorem ipIsBlocked_embedded_iff (h : IpAddress.ofText text = some (.v6 (e.address a))) :
    ipIsBlocked text = true ↔ ∀ rest, e ≠ .sixToFour rest := by
  have hmem := e.address_mem a
  cases e with
  | mapped =>
    have hmapped : isV4Mapped (.v6 (Embedding.mapped.address a)) = true := hmem
    simp only [ipIsBlocked_v6 h, hmapped, Bool.true_or, ne_eq, reduceCtorEq, not_false_eq_true,
      implies_true]
  | compatible =>
    have hreserved : isReserved (.v6 (Embedding.compatible.address a)) = true :=
      within_of_covers (by rfl) hmem
    simp only [ipIsBlocked_v6 h, hreserved, Bool.or_true, Bool.true_or, ne_eq, reduceCtorEq,
      not_false_eq_true, implies_true]
  | nat64 =>
    have hblocked : within (.v6 (Embedding.nat64.address a)) blockedNetworks = true :=
      within_of_covers (by rfl) hmem
    simp only [ipIsBlocked_v6 h, hblocked, Bool.or_true, ne_eq, reduceCtorEq, not_false_eq_true,
      implies_true]
  | sixToFour rest =>
    rw [sixToFour_not_blocked h]
    constructor
    · intro hfalse
      cases hfalse
    · intro hne
      exact absurd rfl (hne rest)

/-- The loopback address in its NAT64 form. -/
theorem ipIsBlocked_embedded_iff_loopback :
    IpAddress.ofText "64:ff9b::127.0.0.1" = some (.v6 (Embedding.nat64.address 0x7f000001#32)) ∧
      (ipIsBlocked "64:ff9b::127.0.0.1" = true ↔
        ∀ rest, Embedding.nat64 ≠ Embedding.sixToFour rest) :=
  have h : IpAddress.ofText "64:ff9b::127.0.0.1" =
      some (.v6 (Embedding.nat64.address 0x7f000001#32)) := by rfl
  ⟨h, ipIsBlocked_embedded_iff h⟩

/-- The loopback address is blocked, and not in its 6to4 form. -/
theorem embedded_loopback_not_blocked :
    IpAddress.ofText "127.0.0.1" = some (.v4 0x7f000001#32) ∧ ipIsBlocked "127.0.0.1" = true ∧
      IpAddress.ofText "2002:7f00:1::" =
        some (.v6 (Embedding.address (.sixToFour 0) 0x7f000001#32)) ∧
      ipIsBlocked "2002:7f00:1::" = false := by
  decide

end Ssrf

end Observatory
