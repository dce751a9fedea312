import JoinedContext.Mqtt.Connect

/-!
# The networks devices connect from

A network admits exactly the addresses that have its first bits, an IPv4-mapped address read as
IPv4. A network written as IPv4-mapped is kept as IPv6, and does not even admit itself.
-/

namespace JoinedContext.Mqtt

namespace SourceRange

/-- The network as it is meant: an IPv4-mapped one is the IPv4 network of its last bits. -/
def plain (range : SourceRange) : SourceRange :=
  if range.network.toCanonical = range.network then range
  else ⟨range.network.toCanonical, range.length - 96⟩

/-- Whether an address has the first bits of the network. -/
def Admits (range : SourceRange) (address : IpAddr) : Prop :=
  address.toCanonical.Agrees range.plain.length range.plain.network

/-- Whether a network admits what it says: the addresses with its first bits, itself among them, and
what its plain notation does. -/
structure Exact (range : SourceRange) : Prop where
  admits : ∀ address, range.contains address = true ↔ range.Admits address
  itself : range.contains range.network = true
  as_plain : ∀ address, range.contains address = range.plain.contains address

variable {text : String} {range : SourceRange}

theorem contains_iff {address : IpAddr} : range.contains address = true ↔
    address.toCanonical.isIpv4 = range.network.isIpv4 ∧
      address.toCanonical.mask range.length = range.network := by
  simp [contains]

/-- What is accepted is a network: no bit is set past a prefix that its family has. -/
theorem masked_of_parse (h : parse text = .ok range) :
    range.network.mask range.length = range.network ∧
      range.length ≤ if range.network.isIpv4 then 32 else 128 := by
  unfold parse at h
  split at h
  · cases h
  · split at h
    · cases h
    · next network _ =>
      simp only at h
      split at h
      · cases h
      · next length hlength =>
        have hbits := (Option.filter_eq_some_iff.1 hlength).2
        split_ifs at h with hzero hmasked
        cases h
        exact ⟨not_not.1 hmasked, by simpa using hbits⟩

/-- A network that is not IPv4-mapped is exact. -/
theorem exact_of_canonical (h : parse text = .ok range)
    (hcanonical : range.network.toCanonical = range.network) : range.Exact := by
  have hplain : range.plain = range := if_pos hcanonical
  obtain ⟨hmasked, hlength⟩ := masked_of_parse h
  refine ⟨fun address => ?_, ?_, fun address => by rw [hplain]⟩
  · rw [Admits, hplain, ← IpAddr.mask_eq_iff hlength, hmasked, contains_iff]
  · rw [contains_iff, hcanonical]
    exact ⟨rfl, hmasked⟩

theorem not_contains_of_mapped (h : range.network.toCanonical ≠ range.network) :
    range.contains range.network = false := by
  rw [← Bool.not_eq_true, contains_iff]
  rintro ⟨hfamily, -⟩
  cases hnetwork : range.network with
  | v4 ip => exact h (by rw [hnetwork]; rfl)
  | v6 ip =>
    rw [hnetwork] at h hfamily
    unfold IpAddr.toCanonical at h hfamily
    dsimp only at h hfamily
    split_ifs at h hfamily with hmapped
    · cases hfamily
    · exact h rfl

/-- An accepted network admits what it says exactly when it is not written as IPv4-mapped. -/
theorem network_exact_iff (text : String) : (∀ range, parse text = .ok range → range.Exact) ↔
    ∀ range, parse text = .ok range → range.network.toCanonical = range.network := by
  constructor
  · intro h range hparse
    by_contra hmapped
    have hitself := (h range hparse).itself
    rw [not_contains_of_mapped hmapped] at hitself
    cases hitself
  · exact fun h range hparse => exact_of_canonical hparse (h range hparse)

/-- The devices of `203.0.113.0/24` are refused where the network is written as IPv4-mapped. -/
theorem mapped_refused : ¬ ∀ text range, parse text = .ok range →
    ∀ address, range.contains address = true ↔ range.Admits address := by
  intro h
  have hparse : parse "::ffff:203.0.113.0/120" = .ok ⟨.v6 0xffffcb007100#128, 120⟩ := by
    decide +kernel
  have hadmits : (⟨.v6 0xffffcb007100#128, 120⟩ : SourceRange).Admits (.v4 0xcb007107#32) := by
    show ∀ i < 24, (0xcb007107#32).getMsbD i = (0xcb007100#32).getMsbD i
    decide
  have hcontains := (h _ _ hparse (.v4 0xcb007107#32)).2 hadmits
  cases hcontains

end SourceRange

end JoinedContext.Mqtt
