import NetTool.Netlink

/-!
# The address calculator

`ipcalc.c` up to its two tables of results, and `ipcalc-reverse.c`. An `in_addr` is its `s_addr`,
whose bytes stand in memory in network order on a little-endian machine; `int` arithmetic wraps. No
result is a shift by as many bits as an `int` has. An `inet_ntop` to a buffer that is large enough
does not fail, nor does an allocation, and the look-ups of the GeoIP database are compiled out.
-/

namespace NetTool

open Bytes CInt

/-! ## Addresses -/

/-- The four bytes in reverse order. -/
def htonl (hostlong : BitVec 32) : BitVec 32 :=
  hostlong.extractLsb' 0 8 ++ hostlong.extractLsb' 8 8 ++ hostlong.extractLsb' 16 8 ++
    hostlong.extractLsb' 24 8

def ntohl (netlong : BitVec 32) : BitVec 32 := htonl netlong

structure in_addr where
  s_addr : BitVec 32
  deriving DecidableEq

namespace in_addr

/-- The address whose bytes in memory these are. -/
def load (a : Vector UInt8 4) : in_addr := ⟨BitVec.ofNat 32 (get32 (ofList a.toList) 0)⟩

def bytes (a : in_addr) : List UInt8 := le32 a.s_addr.toNat

/-- What `inet_ntop` makes of it. -/
def text (c : Libc) (a : in_addr) : String := c.ntop a.bytes

/-- `(ntohl(s_addr) >> n) & 0xff`. -/
def byte (a : in_addr) (n : ℕ) : ℕ := (ntohl a.s_addr >>> n &&& 0xff).toNat

end in_addr

abbrev in6_addr := Vector UInt8 16

def in6_addr.text (c : Libc) (a : in6_addr) : String := c.ntop a.toList

/-- `1 << n` of an `int`. -/
def one_shl (n : ℤ) : Option (BitVec 32) :=
  if 0 ≤ n ∧ n < 32 then some (1#32 <<< n.toNat) else none

def prefix2mask (bits : ℤ) : Option in_addr :=
  if bits ≠ 0 then (one_shl (32 - bits)).map fun v => ⟨htonl (~~~(v - 1#32))⟩
  else some ⟨htonl 0#32⟩

def calc_broadcast (addr : in_addr) (bits : ℤ) : Option in_addr :=
  (prefix2mask bits).map fun mask => ⟨addr.s_addr &&& mask.s_addr ||| ~~~mask.s_addr⟩

def calc_network (addr : in_addr) (bits : ℤ) : Option in_addr :=
  (prefix2mask bits).map fun mask => ⟨addr.s_addr &&& mask.s_addr⟩

/-- The loop of `bit_count`. -/
def bit_count_loop (i : ℕ) (c : ℤ) (seen_one : Bool) : ℤ :=
  if 0 < i then
    if i &&& 1 = 1 then bit_count_loop (i >>> 1) (c + 1) true
    else if seen_one then -1
    else bit_count_loop (i >>> 1) c seen_one
  else c
termination_by i
decreasing_by all_goals (rw [Nat.shiftRight_one]; omega)

def bit_count (i : BitVec 32) : ℤ := bit_count_loop i.toNat 0 false

def mask2prefix (mask : in_addr) : ℤ := bit_count (ntohl mask.s_addr)

def ipv4_mask_to_int (c : Libc) (text : String) : ℤ :=
  match c.pton4 text with
  | none => -1
  | some a => mask2prefix (.load a)

/-! ## Texts and tables -/

def pow2 : List String :=
  ["1", "2", "4", "8", "16", "32", "64", "128", "256", "512", "1024", "2048", "4096", "8192",
    "16384", "32768", "65536", "131072", "262144", "524288", "1048576", "2097152", "4194304",
    "8388608", "16777216", "33554432", "67108864", "134217728", "268435456", "536870912",
    "1073741824", "2147483648", "4294967296", "8589934592", "17179869184", "34359738368",
    "68719476736", "137438953472", "274877906944", "549755813888", "1099511627776",
    "2199023255552", "4398046511104", "8796093022208", "17592186044416", "35184372088832",
    "70368744177664", "140737488355328", "281474976710656", "562949953421312",
    "1125899906842624", "2251799813685248", "4503599627370496", "9007199254740992",
    "18014398509481984", "36028797018963968", "72057594037927936", "144115188075855872",
    "288230376151711744", "576460752303423488", "1152921504606846976", "2305843009213693952",
    "4611686018427387904", "9223372036854775808", "18446744073709551616", "36893488147419103232",
    "73786976294838206464", "147573952589676412928", "295147905179352825856",
    "590295810358705651712", "1180591620717411303424", "2361183241434822606848",
    "4722366482869645213696", "9444732965739290427392", "18889465931478580854784",
    "37778931862957161709568", "75557863725914323419136", "151115727451828646838272",
    "302231454903657293676544", "604462909807314587353088", "1208925819614629174706176",
    "2417851639229258349412352", "4835703278458516698824704", "9671406556917033397649408",
    "19342813113834066795298816", "38685626227668133590597632", "77371252455336267181195264",
    "154742504910672534362390528", "309485009821345068724781056", "618970019642690137449562112",
    "1237940039285380274899124224", "2475880078570760549798248448",
    "4951760157141521099596496896", "9903520314283042199192993792",
    "19807040628566084398385987584", "39614081257132168796771975168",
    "79228162514264337593543950336", "158456325028528675187087900672",
    "316912650057057350374175801344", "633825300114114700748351602688",
    "1267650600228229401496703205376", "2535301200456458802993406410752",
    "5070602400912917605986812821504", "10141204801825835211973625643008",
    "20282409603651670423947251286016", "40564819207303340847894502572032",
    "81129638414606681695789005144064", "162259276829213363391578010288128",
    "324518553658426726783156020576256", "649037107316853453566312041152512",
    "1298074214633706907132624082305024", "2596148429267413814265248164610048",
    "5192296858534827628530496329220096", "10384593717069655257060992658440192",
    "20769187434139310514121985316880384", "41538374868278621028243970633760768",
    "83076749736557242056487941267521536", "166153499473114484112975882535043072",
    "332306998946228968225951765070086144", "664613997892457936451903530140172288",
    "1329227995784915872903807060280344576", "2658455991569831745807614120560689152",
    "5316911983139663491615228241121378304", "10633823966279326983230456482242756608",
    "21267647932558653966460912964485513216", "42535295865117307932921825928971026432",
    "85070591730234615865843651857942052864", "170141183460469231731687303715884105728"]

/-- Powers of two in textual format. -/
def p2_table (pow : ℕ) : String := if pow ≤ 127 then pow2.getD pow "" else ""

def ipv4_net_to_type (net : in_addr) : String :=
  let byte1 := net.byte 24
  let byte2 := net.byte 16
  let byte3 := net.byte 8
  let byte4 := net.byte 0
  if byte1 = 0 then "This host on this network"
  else if byte1 = 10 then "Private Use"
  else if byte1 = 100 ∧ byte2 &&& 0xc0 = 64 then "Shared Address Space"
  else if byte1 = 127 then "Loopback"
  else if byte1 = 169 ∧ byte2 = 254 then "Link Local"
  else if byte1 = 172 ∧ byte2 &&& 0xf0 = 16 then "Private Use"
  else if byte1 = 192 ∧ byte2 = 0 ∧ byte3 = 0 then "IETF Protocol Assignments"
  else if byte1 = 192 ∧ byte2 = 2 ∧ byte3 = 0 then "Documentation (TEST-NET-1)"
  else if byte1 = 192 ∧ byte2 = 51 ∧ byte3 = 100 then "Documentation (TEST-NET-2)"
  else if byte1 = 203 ∧ byte2 = 0 ∧ byte3 = 113 then "Documentation (TEST-NET-3)"
  else if byte1 = 192 ∧ byte2 = 88 ∧ byte3 = 99 then "6 to 4 Relay Anycast (Deprecated)"
  else if byte1 = 192 ∧ byte2 = 52 ∧ byte3 = 193 then "AMT"
  else if byte1 = 192 ∧ byte2 = 168 then "Private Use"
  else if byte1 = 255 ∧ byte2 = 255 ∧ byte3 = 255 ∧ byte4 = 255 then "Limited Broadcast"
  else if byte1 = 198 ∧ byte2 &&& 0xfe = 18 then "Benchmarking"
  else if 224 ≤ byte1 ∧ byte1 ≤ 239 then "Multicast"
  else if byte1 &&& 0xf0 = 240 then "Reserved"
  else "Internet"

def ipv4_net_to_class (net : in_addr) : String :=
  let byte1 := net.byte 24
  if byte1 < 128 then "Class A"
  else if 128 ≤ byte1 ∧ byte1 < 192 then "Class B"
  else if 192 ≤ byte1 ∧ byte1 < 224 then "Class C"
  else if 224 ≤ byte1 ∧ byte1 < 239 then "Class D"
  else "Class E"

def default_ipv4_prefix (net : in_addr) : ℕ :=
  let byte1 := net.byte 24
  if byte1 < 128 then 8
  else if 128 ≤ byte1 ∧ byte1 < 192 then 16
  else if 192 ≤ byte1 ∧ byte1 < 224 then 24
  else 24

/-! ## Reverse names -/

def calc_reverse_dns4 (ip : in_addr) (bits : ℕ) (network broadcast : in_addr) : Option String :=
  let byte1 := ip.byte 24
  let byte2 := ip.byte 16
  let byte3 := ip.byte 8
  let byte4 := ip.byte 0
  if bits = 32 then some s!"{byte4}.{byte3}.{byte2}.{byte1}.in-addr.arpa."
  else if bits = 24 then some s!"{byte3}.{byte2}.{byte1}.in-addr.arpa."
  else if bits = 16 then some s!"{byte2}.{byte1}.in-addr.arpa."
  else if bits = 8 then some s!"{byte1}.in-addr.arpa."
  else if 24 < bits then
    let min := network.byte 0
    let max := broadcast.byte 0
    some s!"{min}-{max}.{byte3}.{byte2}.{byte1}.in-addr.arpa."
  else if 16 < bits then
    let min := network.byte 8
    let max := broadcast.byte 8
    some s!"{min}-{max}.{byte2}.{byte1}.in-addr.arpa."
  else if 8 < bits then
    let min := network.byte 16
    let max := broadcast.byte 16
    some s!"{min}-{max}.{byte1}.in-addr.arpa."
  else none

namespace in6_addr

def s6_addr (a : in6_addr) (i : ℕ) : ℕ := (a[i]?.getD 0).toNat

end in6_addr

/-- The digit of a value below 16, as all its callers pass. -/
def hexchar (val : ℕ) : Char := if val < 10 then Char.ofNat (48 + val) else Char.ofNat (97 + val - 10)

/-- The characters `calc_reverse_dns6` writes to `str`. -/
def reverse_str (ip : in6_addr) (bits : ℕ) : List Char :=
  let max := bits / 8
  (if bits % 8 = 4 then [hexchar (ip.s6_addr ((bits + 4) / 8 - 1) >>> 4), '.'] else []) ++
    ((List.range max).flatMap fun i =>
      [hexchar (ip.s6_addr (max - 1 - i) &&& 0xf), '.',
        hexchar (ip.s6_addr (max - 1 - i) >>> 4), '.']) ++
    "ip6.arpa.".toList

def calc_reverse_dns6 (ip : in6_addr) (bits : ℕ) : Option String :=
  if bits % 4 ≠ 0 then none else some (String.ofList (reverse_str ip bits))

/-! ## What is known of a network -/

/-- What the resolver answers. -/
structure Dns where
  getnameinfo : ℕ → List UInt8 → Option String
  getaddrinfo : ℕ → String → List (ℕ × List UInt8)
  hstrerror : String

structure ip_info where
  ip : String
  expanded_ip : Option String
  expanded_network : Option String
  reverse_dns : Option String
  network : String
  broadcast : Option String
  netmask : String
  hostname : Option String
  hosts : String
  prefix_ : ℕ
  hostmin : String
  hostmax : String
  type : String
  class_ : Option String

def FLAG_RESOLVE_HOST : ℕ := 1
def FLAG_RESOLVE_IP : ℕ := 1 <<< 1
def FLAG_CHECK_ADDRESS : ℕ := 1 <<< 2
def FLAG_SHOW_INFO : ℕ := 1 <<< 3
def FLAG_SHOW_BROADCAST : ℕ := 1 <<< 6
def FLAG_SHOW_NETMASK : ℕ := 1 <<< 7
def FLAG_SHOW_NETWORK : ℕ := 1 <<< 8
def FLAG_SHOW_PREFIX : ℕ := 1 <<< 9
def FLAG_SHOW_MINADDR : ℕ := 1 <<< 10
def FLAG_SHOW_MAXADDR : ℕ := 1 <<< 11
def FLAG_SHOW_ADDRESSES : ℕ := 1 <<< 12
def FLAG_SHOW_ADDRSPACE : ℕ := 1 <<< 13
def FLAG_GET_GEOIP : ℕ := 1 <<< 14
def FLAG_SHOW_GEOIP : ℕ := 1 <<< 15 ||| FLAG_GET_GEOIP
def FLAG_SHOW_ALL_INFO : ℕ := 1 <<< 16 ||| FLAG_SHOW_INFO
def FLAG_SHOW_REVERSE : ℕ := 1 <<< 17
def FLAG_ASSUME_CLASS_PREFIX : ℕ := 1 <<< 18

/-- An error message, unless the program is to be silent. -/
def complain (beSilent : Bool) (fmt : String) (args : List Arg) : List Ev :=
  if beSilent then [] else [.eprintf fmt args]

/-- The host's name where it is asked for. -/
def resolve_host (dns : Dns) (beSilent : Bool) (family : ℕ) (addr : List UInt8)
    (ipStr : String) (flags : ℕ) : Except (List Ev) (Option String) :=
  if flags &&& FLAG_RESOLVE_HOST ≠ 0 then
    match dns.getnameinfo family addr with
    | none => .error (complain beSilent "ipcalc: cannot find hostname for %s: %s\n"
        [.str ipStr, .str dns.hstrerror])
    | some hostname => .ok (some hostname)
  else .ok none

/-- The text an address such as 172 is made of four parts with. -/
def cidr_text (ipStr : String) : String :=
  ipStr ++ String.join (List.replicate (3 - ipStr.toList.count '.') ".0")

def ipv4_minhost (network : in_addr) (bits : ℤ) : in_addr :=
  if bits < 32 then
    if bits ≤ 30 then ⟨htonl (ntohl network.s_addr ||| 1#32)⟩ else network
  else network

def ipv4_maxhost (network netmask : in_addr) (bits : ℤ) : in_addr :=
  if bits < 32 then
    let maxhost : in_addr := ⟨network.s_addr ||| ~~~netmask.s_addr⟩
    if bits ≤ 30 then ⟨htonl (ntohl maxhost.s_addr - 1#32)⟩ else maxhost
  else network

def ipv4_hosts (bits : ℤ) : Option String :=
  if 31 ≤ bits then some (p2_table (u32 (32 - bits)))
  else (one_shl (32 - bits)).map fun v => toString (v - 2#32).toNat

def get_ipv4_info (c : Libc) (dns : Dns) (beSilent : Bool) (ipStr : String) (bits : ℤ)
    (flags : ℕ) : Option (Except (List Ev) ip_info) :=
  match c.pton4 ipStr with
  | none => some (.error (complain beSilent "ipcalc: bad IPv4 address: %s\n" [.str ipStr]))
  | some a =>
    let ip := in_addr.load a
    let ipStr := if 0 ≤ bits then cidr_text ipStr else ipStr
    let bits : ℤ :=
      if 0 ≤ bits then bits
      else if flags &&& FLAG_ASSUME_CLASS_PREFIX ≠ 0 then default_ipv4_prefix ip
      else 32
    if 32 < bits then
      some (.error (complain beSilent "ipcalc: bad IPv4 prefix %d\n" [.int bits]))
    else do
      let netmask ← prefix2mask bits
      let broadcast ← calc_broadcast ip bits
      let network ← calc_network ip bits
      let hosts ← ipv4_hosts bits
      some ((resolve_host dns beSilent AF_INET ip.bytes ipStr flags).map fun hostname =>
        { ip := ip.text c
          expanded_ip := none
          expanded_network := none
          reverse_dns := calc_reverse_dns4 network (u32 bits) network broadcast
          network := network.text c
          broadcast := some (broadcast.text c)
          netmask := netmask.text c
          hostname := hostname
          hosts := hosts
          prefix_ := u32 bits
          hostmin := (ipv4_minhost network bits).text c
          hostmax := (ipv4_maxhost network netmask bits).text c
          type := ipv4_net_to_type network
          class_ := some (ipv4_net_to_class network) })

/-- The byte of the mask that is written where `i` bits are left. -/
def ipv6_mask_byte (i : ℤ) : UInt8 :=
  if 0 < i then if 8 ≤ i then 0xff else UInt8.ofNat (0xff <<< (8 - i).toNat) else 0

def ipv6_prefix_to_mask (bits : ℕ) : Option in6_addr :=
  if 128 < bits then none
  else some (Vector.ofFn fun j : Fin 16 => ipv6_mask_byte (bits - 8 * j.val))

def ipv6_net_to_type (net : in6_addr) (bits : ℤ) : String :=
  let word1 := net.s6_addr 0 <<< 8 ||| net.s6_addr 1
  let word2 := net.s6_addr 2 <<< 8 ||| net.s6_addr 3
  if bits = 128 ∧ net.toList = [0, 0, 0, 0, 0, 0, 0, 0, 0, 0, 0, 0, 0, 0, 0, 1] then
    "Loopback Address"
  else if bits = 128 ∧ net.toList = [0, 0, 0, 0, 0, 0, 0, 0, 0, 0, 0, 0, 0, 0, 0, 0] then
    "Unspecified Address"
  else if 96 ≤ bits ∧ net.toList.take 12 = [0, 0, 0, 0, 0, 0, 0, 0, 0, 0, 0xff, 0xff] then
    "IPv4-mapped Address"
  else if 96 ≤ bits ∧ net.toList.take 12 = [0, 0x64, 0xff, 0x9b, 0, 0, 0, 0, 0, 0, 0, 0] then
    "IPv4-IPv6 Translat."
  else if 96 ≤ bits ∧ net.toList.take 12 = [0x10, 0, 0, 0, 0, 0, 0, 0, 0, 0, 0, 0] then
    "Discard-Only Address Block"
  else if word1 &&& 0xfffe = 0x2001 ∧ word2 = 0 then "IETF Protocol Assignments"
  else if word1 &&& 0xe000 = 0x2000 then "Global Unicast"
  else if net.s6_addr 0 &&& 0xfe = 0xfc then "Unique Local Unicast"
  else if word1 &&& 0xffc0 = 0xfe80 then "Link-Scoped Unicast"
  else if net.s6_addr 0 &&& 0xff = 0xff then "Multicast"
  else if word1 &&& 0xfffe = 0x2002 then "6to4"
  else "Reserved"

/-- The characters `expand_ipv6` writes. -/
def expand_str (ip6 : in6_addr) : List Char :=
  (List.range 16).flatMap fun i =>
    [hexchar (ip6.s6_addr i / 16), hexchar (ip6.s6_addr i % 16)] ++
      if i % 2 ≠ 0 ∧ i ≠ 15 then [':'] else []

def expand_ipv6 (ip6 : in6_addr) : String := String.ofList (expand_str ip6)

def get_ipv6_info (c : Libc) (dns : Dns) (beSilent : Bool) (ipStr : String) (bits : ℤ)
    (flags : ℕ) : Except (List Ev) ip_info :=
  match c.pton6 ipStr with
  | none => .error (complain beSilent "ipcalc: bad IPv6 address: %s\n" [.str ipStr])
  | some ip6 =>
    if 128 < bits then .error (complain beSilent "ipcalc: bad IPv6 prefix: %d\n" [.int bits])
    else
      let bits : ℤ := if bits < 0 then 128 else bits
      match ipv6_prefix_to_mask (u32 bits) with
      | none =>
        .error (complain beSilent "ipcalc: error converting IPv6 prefix: %d\n" [.int bits])
      | some mask =>
        let network : in6_addr := Vector.zipWith (· &&& ·) ip6 mask
        let hostmax : in6_addr := Vector.zipWith (fun n m => n ||| ~~~m) network mask
        (resolve_host dns beSilent AF_INET6 ip6.toList ipStr flags).map fun hostname =>
          { ip := in6_addr.text c ip6
            expanded_ip := some (expand_ipv6 ip6)
            expanded_network := some (expand_ipv6 network)
            reverse_dns := calc_reverse_dns6 network (u32 bits)
            network := in6_addr.text c network
            broadcast := none
            netmask := in6_addr.text c mask
            hostname := hostname
            hosts := p2_table (u32 (128 - bits))
            prefix_ := u32 bits
            hostmin := in6_addr.text c network
            hostmax := if bits < 128 then in6_addr.text c hostmax else in6_addr.text c network
            type := ipv6_net_to_type network bits
            class_ := none }

end NetTool
