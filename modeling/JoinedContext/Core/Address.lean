import JoinedContext.Library.Ip

/-!
# Addresses on the public internet

The rule `jc-core` holds an address written into a manifest to, and that no address of a network
inside an installation passes it.
-/

namespace JoinedContext.IpAddr

def isPublicOctets (a b c d : Nat) : Bool :=
  !((a == 0 && b == 0 && c == 0 && d == 0)
    || a == 127
    || (a == 10 || (a == 172 && (16 ≤ b && b ≤ 31)) || (a == 192 && b == 168))
    || (a == 169 && b == 254)
    || (a == 255 && b == 255 && c == 255 && d == 255)
    || (224 ≤ a && a ≤ 239)
    || ((a == 192 && b == 0 && c == 2) || (a == 198 && b == 51 && c == 100) ||
      (a == 203 && b == 0 && c == 113))
    || a == 0
    -- Shared address space, what the pods of a cluster often live in.
    || (a == 100 && (64 ≤ b && b < 128))
    || (a == 192 && b == 0 && c == 0)
    || (a == 198 && (b == 18 || b == 19))
    || 240 ≤ a)

def isPublicV4 (ip : BitVec 32) : Bool :=
  let n := ip.toNat
  isPublicOctets (n / 16777216) (n / 65536 % 256) (n / 256 % 256) (n % 256)

def isPublicV6 (ip : BitVec 128) : Bool :=
  if ip.toNat / 4294967296 = 65535 then isPublicV4 (ip.setWidth 32)
  else
    let segments := groupsOf ip
    let first := segments.headD 0
    let second := (segments.drop 1).headD 0
    -- NAT64, then 6to4: the IPv4 address in it is the one reached.
    if segments.take 6 = [0x64, 0xff9b, 0, 0, 0, 0] then isPublicV4 (ip.setWidth 32)
    else if first = 0x2002 then isPublicV4 ((ip >>> 80).setWidth 32)
    else
      !(ip.toNat == 0
        || ip.toNat == 1
        || first / 256 == 0xff
        || first / 512 == 0xfc00 / 512
        || (first == 0x2001 && second == 0)
        || first / 64 == 0xfec0 / 64
        || first / 64 == 0xfe80 / 64
        || segments.take 6 == [0, 0, 0, 0, 0, 0]
        || (first == 0x2001 && second == 0x0db8))

def isPublic : IpAddr → Bool
  | v4 ip => isPublicV4 ip
  | v6 ip => isPublicV6 ip

/-- The networks inside an installation: loopback, private and link-local, of either family. -/
def insideNetworks : List (IpAddr × Nat) :=
  [(v4 0x7F000000, 8), (v4 0x0A000000, 8), (v4 0xAC100000, 12), (v4 0xC0A80000, 16),
    (v4 0xA9FE0000, 16), (v6 1, 128), (v6 (0xFC00 <<< 112), 7), (v6 (0xFE80 <<< 112), 10)]

/-- An address of a network inside an installation, also written as an IPv6 address. -/
def Inside (address : IpAddr) : Prop :=
  ∃ network ∈ insideNetworks, address.toCanonical.mask network.2 = network.1

theorem toNat_div_of_mask {w k : Nat} {x net : BitVec w}
    (h : x &&& (BitVec.allOnes w <<< k) = net) : x.toNat / 2 ^ k = net.toNat / 2 ^ k := by
  have hshift : net >>> k = x >>> k := by
    rw [← h]
    ext i hi
    by_cases hk : k + i < w
    · simp [hk]
    · simp [BitVec.getLsbD_of_ge x (k + i) (by omega)]
  have := congrArg BitVec.toNat hshift
  rw [BitVec.toNat_ushiftRight, BitVec.toNat_ushiftRight, Nat.shiftRight_eq_div_pow,
    Nat.shiftRight_eq_div_pow] at this
  exact this.symm

theorem isPublicOctets_eq_false {a b c d : Nat}
    (h : a = 127 ∨ a = 10 ∨ (a = 172 ∧ 16 ≤ b ∧ b ≤ 31) ∨ (a = 192 ∧ b = 168) ∨
      (a = 169 ∧ b = 254)) : isPublicOctets a b c d = false := by
  unfold isPublicOctets
  rcases h with rfl | rfl | ⟨rfl, hlow, hhigh⟩ | ⟨rfl, rfl⟩ | ⟨rfl, rfl⟩
  · simp
  · simp
  · simp [hlow, hhigh]
  · simp
  · simp

theorem isPublicV4_of_mask {ip net : BitVec 32} {length : Nat}
    (hnet : (v4 net, length) ∈ insideNetworks)
    (h : ip &&& (BitVec.allOnes 32 <<< (32 - length)) = net) : isPublicV4 ip = false := by
  have hdiv := toNat_div_of_mask h
  apply isPublicOctets_eq_false
  simp only [insideNetworks, List.mem_cons, List.not_mem_nil, or_false, Prod.mk.injEq, v4.injEq,
    reduceCtorEq, false_and] at hnet
  rcases hnet with ⟨rfl, rfl⟩ | ⟨rfl, rfl⟩ | ⟨rfl, rfl⟩ | ⟨rfl, rfl⟩ | ⟨rfl, rfl⟩ <;>
    simp at hdiv <;> omega

theorem isPublicV6_eq_false {ip : BitVec 128} {first : Nat} (hfirst : ip.toNat / 2 ^ 112 = first)
    (h : first / 512 = 0x7e ∨ first / 64 = 0x3fa) : isPublicV6 ip = false := by
  have hlt := ip.isLt
  have hgroup : ip.toNat / 65536 ^ 7 % 65536 = first := by omega
  have hhead : (groupsOf ip).headD 0 = first := hgroup
  have hmapped : ip.toNat / 4294967296 ≠ 65535 := by omega
  have hnat64 : (groupsOf ip).take 6 ≠ [0x64, 0xff9b, 0, 0, 0, 0] := fun heq => by
    have : ip.toNat / 65536 ^ 7 % 65536 = 0x64 := (List.cons.inj heq).1
    omega
  unfold isPublicV6
  simp only [hhead, if_neg hmapped, if_neg hnat64]
  rw [if_neg (by omega)]
  rcases h with h | h <;> simp [h]

theorem isPublicV6_of_mask {ip net : BitVec 128} {length : Nat}
    (hnet : (v6 net, length) ∈ insideNetworks)
    (h : ip &&& (BitVec.allOnes 128 <<< (128 - length)) = net) : isPublicV6 ip = false := by
  have hdiv := toNat_div_of_mask h
  simp only [insideNetworks, List.mem_cons, List.not_mem_nil, or_false, Prod.mk.injEq, v6.injEq,
    reduceCtorEq, false_and, false_or] at hnet
  rcases hnet with ⟨rfl, rfl⟩ | ⟨rfl, rfl⟩ | ⟨rfl, rfl⟩
  · obtain rfl : ip = 1 := BitVec.eq_of_toNat_eq (by simpa using hdiv)
    decide
  · exact isPublicV6_eq_false rfl (.inl (by simp at hdiv; omega))
  · exact isPublicV6_eq_false rfl (.inr (by simp at hdiv; omega))

/-- No address inside an installation is a public one. -/
theorem isPublic_of_inside {address : IpAddr} (h : address.Inside) : address.isPublic = false := by
  obtain ⟨⟨net, length⟩, hnet, hmask⟩ := h
  cases address with
  | v4 ip =>
    obtain rfl : v4 (ip &&& (BitVec.allOnes 32 <<< (32 - length))) = net := hmask
    exact isPublicV4_of_mask hnet rfl
  | v6 ip =>
    simp only [toCanonical] at hmask
    split_ifs at hmask with hmapped
    · obtain rfl : v4 (ip.setWidth 32 &&& (BitVec.allOnes 32 <<< (32 - length))) = net := hmask
      rw [isPublic, isPublicV6, if_pos hmapped]
      exact isPublicV4_of_mask hnet rfl
    · obtain rfl : v6 (ip &&& (BitVec.allOnes 128 <<< (128 - length))) = net := hmask
      exact isPublicV6_of_mask hnet rfl

example : ["64:ff9b::a00:1", "2002:a00:1::1", "::ffff:1.1.1.1", "2606:4700::1111"].map
    (fun text => (parse text).map isPublic) =
      [some false, some false, some true, some true] := by decide +kernel

end JoinedContext.IpAddr
