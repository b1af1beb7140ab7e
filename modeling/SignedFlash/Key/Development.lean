import SignedFlash.Key.Table

/-!
# Development keys

Fixed keys for development images, with their private exponents, so that images signed with them can
be made again. They must never sign a released image.
-/

namespace SignedFlash

@[ext] structure SigningKey where
  keyId : Word
  modulus : Number
  exponent : Exponent
  -- The private exponent; without it images are left unsigned.
  privateExponent : Option Number
  deriving DecidableEq

-- Whether the key is one of the legacy keys of 2048 bits.
def SigningKey.isLegacy (key : SigningKey) : Bool := key.modulus.getD 95 == 0

namespace DevelopmentKey

-- The modulus of the key of 3072 bits with exponent 3.
def long3Modulus : Number := ⟨[
  0x72fa4b8b, 0x263a5e20, 0xcef1599b, 0xa1a87764, 0x40232306, 0x906a36d9, 0xda0db365, 0xc3ce006f,
  0x2018dec8, 0x82eccfdf, 0x93740679, 0x6da92f4e, 0xf3dad395, 0xbc6188a5, 0x23c651d0, 0x8668d0d5,
  0x01e31448, 0x3e475ff5, 0x4459579f, 0x8d356834, 0x1093854c, 0x9122dead, 0xd7ee034b, 0xf638e653,
  0x7c017b83, 0x5cee198b, 0xf20edb1d, 0x9d4fea11, 0x76b5757b, 0xeb7a0f0f, 0xb86f9afc, 0xec935c03,
  0x422471d8, 0xed37d272, 0xcb989439, 0xf39c4c91, 0x6f5d5a55, 0xdce4549e, 0x2bfee4f2, 0x61b1df2d,
  0x0af800c2, 0x4fbed520, 0x8465a437, 0x7cbde6c3, 0x8e7e96c6, 0xa0413fb5, 0x94b9e0fd, 0x95e4b8e4,
  0x2a5e76b3, 0x4cb450e2, 0x587793e0, 0x8369e540, 0x363cd2d0, 0xa01859d7, 0x3db63022, 0xf767067f,
  0x0a83f75f, 0x1c1906d5, 0xb9c6e5f6, 0x834f56b5, 0xbf8e6da6, 0x16b6a03c, 0x3be6d438, 0xea58782f,
  0x3ce048d9, 0x21767180, 0x1165a754, 0x488b8394, 0x45b03ebf, 0x5432217b, 0x1f256f07, 0x0056335c,
  0x7046fd3c, 0xcb84140e, 0x2688f278, 0xdf50d3f6, 0x4df5c42b, 0x72113e4c, 0x1713201d, 0xeb21a763,
  0x2cd37d7c, 0x236f8bc7, 0xe41e59a4, 0x56595d78, 0xe968c96d, 0x4b49a5d1, 0x7e9dea21, 0xf583cf21,
  0xfae97284, 0x18c39b4c, 0x3964c019, 0x78774ff9, 0x56307eb9, 0x9d4b4f2f, 0xb61bb0cc, 0xb279e7e6],
  rfl⟩

-- The private exponent of the key of 3072 bits with exponent 3.
def long3Private : Number := ⟨[
  0x8b589c8b, 0xb678040d, 0x31f4d128, 0x7efdeea9, 0x199b30c2, 0xd83b4d6f, 0x395bfac3, 0x21da3937,
  0xae5891ef, 0x5a4ad179, 0x3fc50bf1, 0x30f8b2de, 0x1dea1b23, 0x979a2269, 0x5f8b9ebf, 0x3cb5d439,
  0xff9d7e7b, 0xac25b8da, 0x22e5799a, 0xdcd59593, 0x3cce1314, 0x8471074d, 0x9712bc65, 0x8135777c,
  0x8f2621cb, 0x833257d1, 0x8de9c661, 0x965f3161, 0x645bc561, 0x757ce471, 0xd7ce7918, 0x756f7b2f,
  0x0db240d1, 0xbed5ae1d, 0x6881e226, 0xf0e49d1b, 0x77ee82ad, 0x8abeee0b, 0x37bf03e0, 0x5efde54b,
  0x812cca2e, 0xc2e506af, 0xbd657fbb, 0xe59b201e, 0xa94cedd5, 0x9d6b17c5, 0x71e6a9b9, 0x9ae0420d,
  0xc6e9a476, 0x3322e096, 0xe5a50d40, 0x579bee2a, 0x797de1e0, 0x6abae68f, 0x7e79756c, 0xfa44aeff,
  0x5c57fa3f, 0x12bb59e3, 0x7bd9eea4, 0x578a39ce, 0x2a5ef3c4, 0x0f246ad3, 0xd299e2d0, 0x46e5a574,
  0xd3403091, 0x6ba44baa, 0x60ee6f8d, 0xdb07ad0d, 0xd92029d4, 0x8d76c0fc, 0x6a18f4af, 0xaae4223d,
  0xf584a8d2, 0x32580d5e, 0x6f05f6fb, 0x3f8b37f9, 0xdea3d81d, 0xa160d432, 0xba0cc013, 0x476bc4ec,
  0xc88cfe53, 0x179fb284, 0xed699118, 0xe43b93a5, 0xf0f08648, 0x87866e8b, 0xff13f16b, 0xa3ad34c0,
  0xa7464c58, 0x10826788, 0xd0edd566, 0xfafa3550, 0x3975a9d0, 0xbe3234ca, 0x241275dd, 0x76fbefef],
  rfl⟩

def long3 : SigningKey := ⟨0xeb037bdd, long3Modulus, .three, some long3Private⟩

-- The modulus of the key of 3072 bits with exponent 65537.
def long65537Modulus : Number := ⟨[
  0x8ba17259, 0x687ed719, 0xf96ee186, 0xea191705, 0x84f7fe03, 0xc7441b38, 0xbf5bdbdb, 0x55d849a5,
  0x255f5a28, 0x4d035f53, 0x19abbc54, 0x84569107, 0x85ecf1bc, 0x825ffbb2, 0xd72190e9, 0x7855de6d,
  0x50cbf09e, 0xeecb824b, 0xbe1c889c, 0x38922ae4, 0xe0a68052, 0x5bc10cc3, 0x4d89efe3, 0x03502c9e,
  0x562a62bf, 0x0541168d, 0x44ece961, 0xa89d892b, 0x2989b3f3, 0xfb290001, 0x60eea2a7, 0x17c88f0a,
  0xf4c1de90, 0xdad1068e, 0x06debaf9, 0x5b82f10c, 0xd4a9d4b5, 0x087f4714, 0x05111b6c, 0xdc5745da,
  0x2af27a8c, 0x6c5e0ae9, 0x2756b58b, 0x255b6d6b, 0xe9596742, 0x6954858e, 0xa93dc0db, 0x9e39c201,
  0xc74b379a, 0xcdb666fe, 0x046ff2ec, 0x9c7b5867, 0x0896fbba, 0x52a24ede, 0xdc1d80b5, 0x37ca22a7,
  0x4f2963f8, 0x10d1841f, 0x8e8c8ca0, 0x49d7a7b6, 0x5417d47c, 0x567e7a7d, 0x1cf7f839, 0x21c44bfd,
  0xdcbcbbf8, 0xc295ac0e, 0xaa515353, 0x70b228f9, 0xa08d551e, 0x7be05fd4, 0x493d7ff9, 0xa98eb4e6,
  0xe07f76dd, 0x2e553ca9, 0x62c02cd5, 0x0a92c3bd, 0x344b677f, 0xd00f97c5, 0xb69229d8, 0x56c732a0,
  0xb824237a, 0x64bfb4d3, 0x6f1bd7b7, 0xae176973, 0x3eeff101, 0x8e5da8c0, 0x6813f1d3, 0xfce2f45f,
  0x24e6658b, 0x2a6fba2b, 0xf80fad0f, 0x4365c933, 0x8d24f05d, 0x4c5903de, 0x62a87b0e, 0xd73e2344],
  rfl⟩

-- The private exponent of the key of 3072 bits with exponent 65537.
def long65537Private : Number := ⟨[
  0xcde0e401, 0xc5ee5a33, 0x73ae607f, 0x96db36bc, 0xcb4c34af, 0xb9cdd955, 0x3ce19ec1, 0x06cea2b2,
  0x0e92e0e6, 0x839148fb, 0xb34d0d06, 0xb9508bc8, 0x6b0a7861, 0x51643d0e, 0x913feb85, 0xd22bb35d,
  0x9717e77c, 0x5cf371eb, 0x100b7a1a, 0x46dd8b49, 0xa1b72217, 0xb8f62b3e, 0x915e2a0e, 0x053ad0b5,
  0x94af1698, 0x1c4ab887, 0xf8b57f5b, 0xd33812eb, 0x0dc5b1be, 0xf15e4f9b, 0xb7593b76, 0x27c20da2,
  0xb13bdb0a, 0x237bfc66, 0x301fa150, 0x36871a94, 0xc3b9ee43, 0xef0d7fca, 0x61a5ac50, 0x34388364,
  0x329ce8ed, 0x4ced4e31, 0xd0524e6a, 0x10253e93, 0xe3ac1c60, 0xc6433c97, 0x05f4d401, 0xefb38040,
  0xb6312cf4, 0x25cf58f6, 0xba943b84, 0xc7c57ffb, 0xc5b12070, 0x1e7dfab4, 0x6de82c5c, 0xcc7a9649,
  0xd5dae22a, 0x45eff46b, 0x2e15ba72, 0xf4d4202a, 0x0390530e, 0x0dd66833, 0xa119d2f6, 0x3a8cb2cb,
  0xae22a292, 0xc56dc595, 0x5d748a12, 0x367f100c, 0x5d551abf, 0xd6741ece, 0x6e96fa17, 0xd5033301,
  0x0f1c5fc2, 0xa45c4002, 0xbd12a09a, 0xda59205a, 0x1aeb4658, 0x8d445b4a, 0xacaf738d, 0x2cb82799,
  0xac155606, 0x3f122f1b, 0xb66f39a2, 0x13ce9da3, 0x061e7a73, 0xe22ab5f7, 0xef50afc7, 0x5e1d5cc9,
  0x9816a008, 0xabbf6d2e, 0xfbb1bdcd, 0x5057d75c, 0x56046722, 0x8a2eebdd, 0x440a3ea2, 0xab484f58],
  rfl⟩

def long65537 : SigningKey := ⟨0x3cd94a17, long65537Modulus, .fermatFour, some long65537Private⟩

-- The modulus of the key of 2048 bits with exponent 3.
def legacy3Modulus : Number := ⟨[
  0x0e48b7ad, 0xb48cc1de, 0x263fb02d, 0xbc55bda6, 0x984f9011, 0x8b8881b2, 0x3aa8f7d1, 0xbfca4e55,
  0x7fc19271, 0x74c715ae, 0xe0a8974a, 0xe417a896, 0x2efdbbfd, 0xd1dc5b72, 0x64f69e0f, 0x4eb03993,
  0x7d23dd94, 0xfcc8af24, 0xb33af7ee, 0x66ba2cc2, 0x8e3a7174, 0x25bcd7b7, 0xb2dde253, 0xd2b44ecc,
  0x108c4dbe, 0xfbf14192, 0x0f2e027e, 0x30d239ad, 0xf9484006, 0x08a91ee1, 0x3addf96f, 0x9be8cbe2,
  0x74c3a985, 0x86949772, 0xb9561093, 0x2d07f6bc, 0xabcc9e8e, 0x25b07bfc, 0xdaa8706a, 0x219d5be2,
  0xc13b7504, 0xe27603ff, 0xdbd814bf, 0x5f98d921, 0x9cf9231e, 0x6b51976e, 0xfe0ed700, 0xf416cb67,
  0x9354815f, 0xcc6bba34, 0x358295c7, 0xcb77dc6d, 0xf348c6b6, 0x1cce6434, 0x64e82930, 0x82a2d6f2,
  0xd8d8672a, 0x3f36da08, 0xd1371c96, 0xb4b2a91d, 0x4f901259, 0x647076be, 0x71a0cee4, 0xed2e1611,
  0x00000000, 0x00000000, 0x00000000, 0x00000000, 0x00000000, 0x00000000, 0x00000000, 0x00000000,
  0x00000000, 0x00000000, 0x00000000, 0x00000000, 0x00000000, 0x00000000, 0x00000000, 0x00000000,
  0x00000000, 0x00000000, 0x00000000, 0x00000000, 0x00000000, 0x00000000, 0x00000000, 0x00000000,
  0x00000000, 0x00000000, 0x00000000, 0x00000000, 0x00000000, 0x00000000, 0x00000000, 0x00000000],
  rfl⟩

-- The private exponent of the key of 2048 bits with exponent 3.
def legacy3Private : Number := ⟨[
  0xf2bd5c53, 0x05955aa4, 0x3273a245, 0xa00a7751, 0xd4bb3502, 0xeb0e3e4a, 0x5faf8a9e, 0xe0bbddbf,
  0x73b69e04, 0xceb44147, 0xf462cd26, 0x00810087, 0xa629a0b0, 0x4fa44aa8, 0x62478c9f, 0x8001805f,
  0x2a381c70, 0xf964f9be, 0xbc8a09a2, 0x0e36d954, 0xa63eb08f, 0xc4607e8f, 0x19c158e0, 0x94a667fd,
  0x7c810c28, 0xacc5ed38, 0xf2c7cafc, 0xa543dffc, 0x0ad446e9, 0x4f86765c, 0x3413ef7c, 0x1f62a5d3,
  0xa32d1bad, 0x04630fa1, 0xd0e40b0d, 0x735aa47d, 0xc7ddbf09, 0x6e75a7fd, 0x3c704af1, 0xc1139297,
  0x80d24e02, 0x41a402aa, 0x92900dd5, 0xea65e616, 0xbdfb6cbe, 0x478bba49, 0xa95f3a00, 0x4d64879a,
  0xb78dab95, 0xdd9d26cd, 0x7901b92f, 0xdcfa92f3, 0xa2308479, 0xbddeed78, 0x434570ca, 0xac6c8f4c,
  0x3b3aef71, 0x2a24915b, 0xe0cf6864, 0x2321c613, 0xdfb56191, 0x42f5a47e, 0xf66b3498, 0x9e1eb960,
  0x00000000, 0x00000000, 0x00000000, 0x00000000, 0x00000000, 0x00000000, 0x00000000, 0x00000000,
  0x00000000, 0x00000000, 0x00000000, 0x00000000, 0x00000000, 0x00000000, 0x00000000, 0x00000000,
  0x00000000, 0x00000000, 0x00000000, 0x00000000, 0x00000000, 0x00000000, 0x00000000, 0x00000000,
  0x00000000, 0x00000000, 0x00000000, 0x00000000, 0x00000000, 0x00000000, 0x00000000, 0x00000000],
  rfl⟩

def legacy3 : SigningKey := ⟨0x220e3bdb, legacy3Modulus, .three, some legacy3Private⟩

end DevelopmentKey

structure BuiltinKey where
  name : String
  family : Family
  role : KeyRole
  key : SigningKey

def BuiltinKey.toEntry (builtin : BuiltinKey) : Except Fault KeyEntry :=
  KeyEntry.new builtin.name builtin.family builtin.role builtin.key.keyId
    builtin.key.modulus.toList builtin.key.exponent.value

/-- The keys that are built in: the development keys, or none at all. -/
def builtinKeys (developmentKeys : Bool) : List BuiltinKey :=
  if developmentKeys then [
    ⟨"dev rom", .haven, .rom, DevelopmentKey.long3⟩,
    ⟨"dev loader", .haven, .loader, DevelopmentKey.long65537⟩,
    ⟨"dev legacy", .haven, .loader, DevelopmentKey.legacy3⟩]
  else []

/-- The key table of a verifier without a configuration. -/
def KeyTable.builtin (developmentKeys : Bool) : Except Fault KeyTable :=
  (builtinKeys developmentKeys).foldlM (fun table builtin => do
    table.insert (← builtin.toEntry)) KeyTable.empty

end SignedFlash
