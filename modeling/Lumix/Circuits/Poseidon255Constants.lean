/-
The round constants and mixing matrices of Poseidon255 for the widths
the protocol hashes at (t = 2, 3, 4), in the order `CONSTANTS(t)` and
`MATRIX(t)` of `poseidon255_constants.circom` list them: constant
`C[i * t + j]` is added to state word `j` in round `i`, and `M[i][j]`
multiplies state word `j` into output word `i`.
-/
import Lumix.Basic.Word

namespace Lumix.Poseidon255

set_option maxRecDepth 4096

/-- The round constants for one input, -/
def constants2 : List Fr := [
  0x6267f5556c88257324c1c8b00d5871b2eba13cc39d72aa10dde6b69bc44c41c7,
  0x30347723511438a085118166c68bf0c4f4ab5c10a2c55adb5cf87cc9e030f60f,
  0x10db856965e40038eb6427303181e7b7439f1a051aa4630c26cf86d0a0451a4b,
  0x5a3d2dcd541e4faaae7eb143eec847a0f652b6dc1b92e3f39ec23c808b3a5d63,
  0x3b07f0ff7edcf93b1dd0487bc9fab1c6905f9ceee38dcce83efeb3a320398526,
  0x40c73c524b9fd0fab63128175befe07b5c63ccdde9ca10e1a37205c9607fdf8a,
  0x3a933861cf23752376d94dbb24b0f3c61630787928875c07672b68abfb9191e0,
  0x71cc165e208570b2d5ef81db84e3c5e714ea4edfb36fc7fb11ef65a64b2d9755,
  0x6c0dc9eb332b5d968bec8ad68fe24ce34087ea54093f153618434475bce402f8,
  0x0af5bafd335dae5c86967b11d5dcefb986a54c9d60d35eb06dc7a3fd779b3906,
  0x6e12847918f030f2626c150ab69e4be0f13d202ae1f8bc87ea74323e93372e3b,
  0x5565d40e21d059a26db241ca125d9316283eadf144b1318e604e253eeae1fe9a,
  0x608e01b42d3dca09fed9b54eadaaba3e4ce6aefe92b0dc954a0fa4683a9678f2,
  0x16bbe434b24f94e2c40ed1f4f9bd7d17e5be96c3aec15579b35fd80f0f80de9e,
  0x0d1be811a8e73220cab01ce981d475522c3d7dd9e2716c3a2cf4ddd541546890,
  0x5997a3affb18f942868b86f8ee10a68966e90bac7bbd8c65ede7e6e5ef1f6320,
  0x4d92e86d270041061eec80278079fca771499dea5ccdc99682a953bb3a038b8e,
  0x616c8c5ce232b9314f694fc6a968446ea9daf7a4079ce1a75fcc950741d680bb,
  0x677e31e7846d9131bdc350eaf11a8ff918dd258ddd800444424afab34dfdfe3d,
  0x4e7d7f85aefc110b233525ee3e53851aee7d3241e2a132585e0e25005eee0b0e,
  0x06a8b4539488b7dddc48c3a226dbda313f906e106f844196d55013d321244f13,
  0x5091517b6a85783108999f8e6bda3c793bef3f2e9589641d260bdfde8bdef00d,
  0x0d2703e5b30f54d7f414e901802d54f8c14cd6355415df6e0f063d16bef9c43a,
  0x56f69096811148eb38eec143d32565c077b3d1a4a4351f2b458f43b1659d4495,
  0x622d94d38d1ded428afd062008c5709b43a678f6ba518ec56383e8ffba473504,
  0x2730c607bba7333723a4a44577819b7db82a24574f6d13eee4c856c1ca3de9c7,
  0x01ac5f59256c5004dc1043c53b23800a3fbab53eb1a83f551056f227b514b9f6,
  0x0790b92523c973f1c95b94937afbb5796d89481e7a56328b44bab5ba81ae42f3,
  0x1d63b59d97bc269d13964fb3e8771d0acc749bc83eb2f0372484e266142bb8c0,
  0x1a52d04e5f14a3a05f7a01262df9e68c77fdf7e2bfb56c8b252d2140efdf0914,
  0x5aa9b3b808812b284857e8622843a8717fa5cb49b217017f31d79e8d0f963fc0,
  0x6a3d18fdbeb1d77ec1304539b00e6188786dbbc4435269b4c6281367f42656e3,
  0x4743e860df269a85dd76fb99dbe9d840eb669dc859754b3f74805e57ba288b00,
  0x6c32cac3946825f80a434c5ab397fc1a1c6a9bdfaab53175d4cf3d29ddb6cbc6,
  0x333b0eea5da7ed1e3959d16280a361aa77dd24ecbfb28e1b2583ac4e9894305c,
  0x3b503fc333b795ccc0c5bb3ae26b077dc3742cb745ec8821648c5ce7ebd9df18,
  0x4fa5853188d9f728a17532d94bee6fb28fee510380a5d50927c6c5b1ce283444,
  0x5d2ed8a6603a905bac490ebfb9e6c18f0bc9da1bbc2173291b18de6b6186118f,
  0x2d830a53584c5556264852f075c78f7f9eb068016ae88af9cda933d6ae52eca7,
  0x0250f4d6780ad29ae60e55f135b9ac80ccc7c81e3add37db276c26f1a2b1b86e,
  0x6e3e9595f59220599e23e830728d4a0c4d62515ec1ed10b72446cf4df5b4c308,
  0x2cd3314555d6faf23ee90cdb884f1c4697ebe98e3a450a624c4d896233b93cd5,
  0x584a408d0f370543b8413fee70a060a394e561f504d8679f7bece4bf222e4108,
  0x499cd53437b9fcbf7479c00fcc21295759074ce9bd1bb1fbd3460237aef4759e,
  0x56a9b567bd0646effd0608d74d537991136098d9a06af6cb3ff8f010efb57578,
  0x6a5fae2b00d968b931441b374e27ba4d03b306bd602d48731677169e75a67e8c,
  0x2e1cc28e390e64aa1d60edb99c0aeda7c8c32bdb01ba11abbad5026b46eccb27,
  0x2d4820000675df7c276beac408fe2e851e734a7008ae09bbcb3c96c70024f71b,
  0x0c2fe101a2b52b538b902c6b2dc992cb266f7636e05b0c068385b5fa19e97142,
  0x209b790b78c0e7927c6a178ef2f00b8687fc7bd4f21a9e02578551535002bc95,
  0x2dd0926cf56bbaaec6491513d08a9983f94a910852a7b4ea4bd4222b93e14c10,
  0x4316b39dd7d65b1bb575198104d409b169236a7ade371f7ab176fcbae75a5f0d,
  0x540276d61041b91f6ea3068ec260a9338b6e3da15d934e648c24f35aee04e535,
  0x37af612900b839977b146324c84772c58a4ccc0f6494cc054571827e74bfd2d3,
  0x2af00c93d59ed14c9911e5cb3781d772371e83228e4267bbce11d065c1955338,
  0x62b48779b0cf7ff2c10fd9b91a6ff7b7a99f935e961a5a94aa38f9d4f71c8b4c,
  0x540bf5bbe01f28563bcbe11a2ce346d8231a2cdd0fe07641f9fa89e5c21978e3,
  0x232b6c847a6d23912cb10ecbe50b53491f67f71e9b87a4a30446f2218017874b,
  0x0ab34adbe77b8f1e57a370e4fd626071eea74b3f0b66644a629efaa0e96456c0,
  0x1a83e43ef118c90046b1bdbeab8dd5cdcab632807c2cd0dc9147cbc5b7084be8,
  0x1ec6fa41b41b672d9005468720918130b642567462a3d557a595d4dc6c56f2f9,
  0x01f81a153199a751a111b8f5212cfc5bf82aacf0287d03e1864f8e5713fe4a17,
  0x2617307587a675f4ecd73a54a7b206162d751cabf3d9fd007bcca4de2c6f0649,
  0x1647be94c515178c7974a245624b642bb1ae6e2d4e1682087e362d7f98bc953f,
  0x6e690b956e00b9e339dec49d675586f661f9b081ee3fa7696d73977658aa6fea,
  0x660b85bc22de06d476c47bf084ad436f59874f1d630c0f5c91fbef51d5e738c5,
  0x32bf3d451b69dde075fc370eaa8c1b77b5c0bc2aab1c7b46da7ef9d1840b0419,
  0x73924b40beaa9c1ce4074c2154d1af4d658c09395a568b99b2fbcc3b5685e810,
  0x17cbb3ee0adcb9d977e96e9152b36042925244fdd0aa184c7a89a58a2dc40097,
  0x29d76a821e3220775c552f6b5977ab94956e52b8dac36ef88ace050d553766a3,
  0x62b1a6c06ab26881a1fe57eceac56b5aec0b96da7211557f4e27ec24296d7db6,
  0x0dfc474151e5c605a693a51ae8227cc0a99fdc4524fc2810c6eda9035d04334d,
  0x3e287088506bb38d2ed465cdab37a7b2eedafb47557446a9aec9d366a91b1d98,
  0x2641d2919d0bed24673c9effc24578798c56f3cd39940030aff2c913cf58974a,
  0x286c1f841a05bb667c84d93ba9359da901a545ecb1c6a37403c5e74d0a663cf9,
  0x68159ff06a0aff28d53ecaae5654db9f3017f564378fccb68af2a47f10788d17,
  0x432ff6c037e9ce6e61172862cc076d925d00f4414fa4f4d8722c4b1460c2f04b,
  0x5e1a35f47c87b33cd37544c51d7dda1d7e262af52b11133df163d2c94e9f0674,
  0x0b8d4686183872494b4416fc82317a4deae10e7c312aeb8a44697b49b1025df5,
  0x6291c6d458499cffd8915196bde5fdcdb7eb5ef6b1e6d15aab7d8e95cda2c564,
  0x0e2f4df2de6504553f057c1046bb04decf779baff7457cce028c4f55d4f4f0ed,
  0x1694268ccf0cf400d1c77259d9766437e5a35810b854022829ead0b3e70aeba4,
  0x3c96c51a30dc76af38c9c08c36ee90b626c28910a0994e0854b5375e7f46698b,
  0x5a99402864789e9d2bd2930a70a54adb66865923b4a17ef36a107020e44a73dc,
  0x5a22c7703f1ab4a55031fc34aab0732018e931ba48c8c38c65bfaf5e610ab7af,
  0x686fea106123473955c3e9365afa2238a5e35390360884ed7555a8c5f8d66a20,
  0x6a68607546ff48f9d154b924ccf0fd85b608ad351e4bcffd6097d4d175ea53bc,
  0x21077e81fe5a0bde7f6f2631f93cb33d07d1928befec6a434bc0616ef5b3dddb,
  0x11aeb10c549bc49d3ea21f84ea42ba3374a80c7504186d3c9c9476e7a380fb90,
  0x4dfbc6f6a54a316d331770308f53534a01f4b9a50210cb081fdee076e3fd6871,
  0x0e9ba2efbd177a7c3e3ba0716b5de50a24937f94bd97491941e064704a024904,
  0x1dda541f2f744aaee3c50c2d9abc405d8fbd01e3e5c22f4192d893f45788e9d6,
  0x2ec1165caf7fd1589fbd8cf29049439a0c266d9c002c5d77b656a2e28db097b3,
  0x1f8cc6e561bde673e0bbbfb882419c31575e4b7ae66cde549443f95dc23566ec,
  0x57d97d4b02423d7738690fbea9e0b7ba8eb1ad651986f869ff96a932fedbe6d3,
  0x1205704bf8e95ba26bca37a88295daeba494546ea8efe7189efb000e0bcfbdd0,
  0x016cdeebdb6f8b37fbbd4ef80645d2473d21df81eee935ec540836f06eb49d38,
  0x19b8a2f4a6403c98add6f220ff4938fe7b5ca43c78095f14184923bdfa0cae33,
  0x19358aab5822facc694ee0a27a4ec9fb6bf931d5efb8ce59c25d67bb017e26d5,
  0x0c7a80ba8f7372a2bee14572b6967720c9853f811188cd44fe24e764a2e7affe,
  0x3894fe113139129d6f42058e3f871ac109b87f7fcffc317321cc1e428f9b48c4,
  0x1aefc0785946d65ef0e62be601da8cad8e94f5e3f96a177c235740d5fb406ab9,
  0x0af1c4fc0b49030fe545ef543ac1b16640288c36554ee106e7d1e06a4e1626b3,
  0x5848a8b1f2645e1c36b603a083689b50b760744f96bdf07a2df821e584023884,
  0x1318aac0f0ef72e5e0233ca168ea6c21a4e162e00d3ba70d79087df4660154f4,
  0x4179cc529ed5ddd4aa1acf77e50d12bb9a754df8bfcb0ff6c6e1073e8cbfe8ea,
  0x005983d5e4d5d48c2c80a4dd83083db023217247ece5e0514e49b90cd73e3d05,
  0x5c198603562a2e473d5486f461f4fc776051ab0bfc00526df55541b87e47c11b,
  0x39c93d11962620d7c5396532137173d6746356c6821ff03734d59af52a6ad067,
  0x2475bc5acc012b8083fcc7d2ccb15127a2bc7bec09dbce1319e5f680bed75fa7,
  0x66729d8d26c113573bcb9dcd84bdbca5fb0aede246e1f5659762ce88a38abc7a,
  0x0bb442eba5baf8e728df8eb9c2cb17ed8ac2909427f0a608ddbede534265c995,
  0x4a432bd0cf7b12c3f31ff6ef7033982cfb702a89df14ad1457e9e108e0093e0f,
  0x3d120149595e0c7fa884fe33f287ea54841a94be027702ea9881ad9227204ecd,
  0x35e47349a427ba8b1df4bf4f5f1da532f25c44be406a90def22e870301d051e0,
  0x19caf5fbbc0a1424525971b573841109f36dc3e07eb1df7fd69d4e1fd34abcec,
  0x4d94360247806752a4c1e622c2964069456601b666c900aa8686ae74c00d33be,
  0x515cce538dcf5280c18d4d2973a2fd4eda2304d6f0bb0b45d01bf9a2b1fcae38,
  0x5d157e3dbf20d63c3e0783a96c763b96f28ad0548a44fabba29463d5fb759390,
  0x50c6439188ea7d8153949b6f5f64c10df7bf884d31b9680323781406fc84d4c8,
  0x06ab7adf0f997badc0b95360e3d992b0d5dafe9fce2c807f5de11ea819123651,
  0x6212d6f6db15bcc7f3b1637efbfa8d08c5faebeab89d265bb7a0585b96306900,
  0x5f674e12cce1d53f2d01b06ea1874335f8c7634443b29b300ff011a4e4822783,
  0x01865aba8ec3d89aca45cc1da7d8ca5e2b31a8a44178a0d6e665fbe83d63cdd2,
  0x221d9df33836d262a34e9566471db96efbe80c8e0602d8ea7af1c2560afc4ed9,
  0x0f12e59c448a18bae09585d74c637be4ef24ec3d5ba000964cf76c6032d159af,
  0x10376fa0adb3a50540dfd9aa95fa8b5c120f4e6843590ed156b5fcb93ecb7a27,
  0x031597a49ea890a50ed8381799fa51e27e540902ada5f8d8a7529a980458eac8]

/-- and the matrix. -/
def matrix2 : List (List Fr) := [
  [0x1e6d0cd936714f2124fc4c78321266174fe2855e689c6511a36ecadc3cccc268,
   0x1240406fed29618b5515b2170437e1cbe9dbf814d630e4c71109f74a157a9bcd],
  [0x70720066b0150aa415f3fff26ea0b231e657f63112a36a97f0833f3c18dfa4c5,
   0x6b07f55f01bb144fece2d7068241cef3eda1aba1730dab73367f3d06e994a23e]]

/-- For two inputs, -/
def constants3 : List Fr := [
  0x6f007a551156b3a449e44936b7c093644a0ed33f33eaccc628e942e836c1a875,
  0x360d7470611e473d353f628f76d110f34e71162f31003b7057538c2596426303,
  0x4b5fec3aa073df44019091f007a44ca996484965f7036dce3e9d0977edcdc0f6,
  0x67cf1868af6396c0b84cce715e539f849e06cd1c383ac5b06100c76bcc973a11,
  0x555db4d1dced819f5d3de70fde83f1c7d3e8c98968e516a23a771a5c9c8257aa,
  0x2bab94d7ae222d135dc3c6c5febfaa314908ac2f12ebe06fbdb74213bf63188b,
  0x66f44be5296682c4fa7882799d6dd049b6d7d2c950ccf98cf2e50d6d1ebb77c2,
  0x150c93fef652fb1c2bf03e1a29aa871fef77e7d736766c5d0939d92753cc5dc8,
  0x3270661e68928b3a955d55db56dc57c103cc0a60141e894e14259dce537782b2,
  0x073f116f04122e25a0b7afe4e2057299b407c370f2b5a1ccce9fb9ffc345afb3,
  0x409fda22558cfe4d3dd8dce24f69e76f8c2aaeb1dd0f09d65e654c71f32aa23f,
  0x2a32ec5c4ee5b1837affd09c1f53f5fd55c9cd2061ae93ca8ebad76fc71554d8,
  0x5848ebeb5923e92555b7124fffba5d6bd571c6f984195eb9cfd3a3e8eb55b1d4,
  0x270326ee039df19e651e2cfc740628ca634d24fc6e2559f22d8ccbe292efeead,
  0x27c6642ac633bc66dc100fe7fcfa54918af895bce012f182a068fc37c182e274,
  0x1bdfd8b01401c70ad27f57396989129d710e1fb6ab976a459ca18682e26d7ff9,
  0x491b9ba6983bcf9f05fe4794adb44a30879bf8289662e1f57d90f672414e8a4a,
  0x162a14c62f9a89b814b9d6a9c84dd678f4f6fb3f9054d373c832d824261a35ea,
  0x2d193e0f76de586b2af6f79e3127feeaac0a1fc71e2cf0c0f79824667b5b6bec,
  0x46efd8a9a262d6d8fdc9ca5c04b0982f24ddcc6e9863885a6a732a3906a07b95,
  0x509717e0c200e3c92d8dca2973b3db45f0788294351ad07ae75cbb780693a798,
  0x7299b28464a8c94fb9d4df61380f39c0dca9c2c014118789e227252820f01bfc,
  0x044ca3cc4a85d73b81696ef1104e674f4feff82984990ff85d0bf58dc8a4aa94,
  0x1cbaf2b371dac6a81d0453416d3e235cb8d9e2d4f314f46f6198785f0cd6b9af,
  0x1d5b2777692c205b0e6c49d061b6b5f4293c4ab038fdbbdc343e07610f3fede5,
  0x56ae7c7a5293bdc23e85e1698c81c77f8ad88c4b33a5780437ad047c6edb59ba,
  0x2e9bdbba3dd34bffaa30535bdd749a7e06a9adb0c1e6f962f60e971b8d73b04f,
  0x2de11886b18011ca8bd5bae36969299fde40fbe26d047b05035a13661f22418b,
  0x2e07de1780b8a70d0d5b4a3f1841dcd82ab9395c449be947bc998884ba96a721,
  0x0f69f1854d20ca0cbbdb63dbd52dad16250440a99d6b8af3825e4c2bb74925ca,
  0x5dc987318e6e59c1afb87b655dd58cc1d22e513a05838cd4585d04b135b957ca,
  0x48b725758571c9df6c01dc639a85f07297696b1bb678633a29dc91de95ef53f6,
  0x5e565e08c0821099256b56490eaee1d573afd10bb6d17d13ca4e5c611b2a3718,
  0x2eb1b25417fe17670d135dc639fb09a46ce5113507f96de9816c059422dc705e,
  0x115cd0a0643cfb988c24cb44c3fab48aff36c661d26cc42db8b1bdf4953bd82c,
  0x26ca293f7b2c462d066d7378b999868bbb57ddf14e0f958ade801612311d04cd,
  0x4147400d8e1aaccf311a6b5b762011ab3e45326e4d4b9de26992816b99c528ac,
  0x6b0db7dccc4ba1b268f6bdcc4d372848d4a72976c268ea30519a2f73e6db4d55,
  0x17bf1b93c4c7e01a2a830aa162412cd90f160bf9f71e967ff5209d14b24820ca,
  0x4b431cd9efedbc94cf1eca6f9e9c1839d0e66a8bffa8c8464cac81a39d3cf8f1,
  0x35b41a7ac4f3c571a24f8456369c85dfe03c0354bd8cfd3805c86f2e7dc293c5,
  0x3b1480080523c439435927994849bea964e14d3beb2dddde72ac156af435d09e,
  0x2cc6810031dc1b0d4950856dc907d57508e286442a2d3eb2271618d874b14c6d,
  0x6f4141c8401c5a395ba6790efd71c70c04afea06c3c92826bcabdd5cb5477d51,
  0x25bdbbeda1bde8c1059618e2afd2ef999e517aa93b78341d91f318c09f0cb566,
  0x392a4a8758e06ee8b95f33c25dde8ac02a5ed0a27b61926cc6313487073f7f7b,
  0x272a55878a08442b9aa6111f4de009485e6a6fd15db89365e7bbcef02eb5866c,
  0x631ec1d6d28dd9e824ee89a30730aef7ab463acfc9d184b355aa05fd6938eab5,
  0x4eb6fda10fd0fbde02c7449bfbddc35bcd8225e7e5c3833a0818a100409dc6f2,
  0x2d5b308b0cf02cdfefa13c4e60e26239a6ebba011694dd129b925b3c5b21e0e2,
  0x16549fc6af2f3b72dd5d293d72e2e5f244dff42f18b46c56ef38c57c311673ac,
  0x42332677ff359c5e8db836d9f5fb54822e39bd5e22340bb9ba975ba1a92be382,
  0x49d7d2c0b449e5179bc5ccc3b44c6075d9849b5610465f09ea725ddc97723a94,
  0x64c20fb90d7a003831757cc4c6226f6e4985fc9ecb416b9f684ca0351d967904,
  0x59cff40de83b52b41bc443d7979510d771c940b9758ca820fe73b5c8d5580934,
  0x53db2731730c39b04edd875fe3b7c882808285cdbc621d7af4f80dd53ebb71b0,
  0x1b10bb7a82afce39fa69c3a2ad52f76d76398265344203119b7126d9b46860df,
  0x561b6012d666bfe179c4dd7f84cdd1531596d3aac7c5700ceb319f91046a63c9,
  0x0f1e7505ebd91d2fc79c2df7dc98a3bed1b36968ba0405c090d27f6a00b7dfc8,
  0x2f313faf0d3f6187537a7497a3b43f46797fd6e3f18eb1caff457756b819bb20,
  0x3a5cbb6de450b481fa3ca61c0ed15bc55cad11ebf0f7ceb8f0bc3e732ecb26f6,
  0x681d93411bf8ce63f6716aefbd0e24506454c0348ee38fabeb264702714ccf94,
  0x5178e940f50004312646b436727f0e80a7b8f2e9ee1fdc677c4831a7672777fb,
  0x3dab54bc9bef688dd92086e253b439d651baa6e20f892b62865527cbca915982,
  0x4b3ce75311218f9ae905f84eaa5b2b3818448bbf3972e1aad69de321009015d0,
  0x06dbfb42b979884de280d31670123f744c24b33b410fefd4368045acf2b71ae3,
  0x068d6b4608aae810c6f039ea1973a63eb8d2de72e3d2c9eca7fc32d22f18b9d3,
  0x4c5c254589a92a36084a57d3b1d964278acc7e4fe8f69f2955954f27a79cebef,
  0x6cbac5e1700984ebc32da15b4bb9683faabab55f67ccc4f71d9560b3475a77eb,
  0x4603c403bbfa9a17738a5c6278eaab1c37ec30b0737aa2409fc4898069eb983c,
  0x6894e7e22b2c1d5c70a712a6345ae6b192a9c833a9234c31c56aacd16bc2f100,
  0x5be2cbbc44053ad08afa4d1eabc7f3d231eea799b93f226e905b7d4d65c58ebb,
  0x58e55f287b453a9808624a8c2a353d528da0f7e713a5c6d0d7711e47063fa611,
  0x366ebfafa3ad381c0ee258c9b8fdfccdb868a7d7e1f1f69a2b5dfcc5572555df,
  0x45766ab728968c642f90d97ccf5504ddc10518a819ebbcc4d09c3f5d784d67ce,
  0x39678f65512f1ee404db3024f41d3f567ef66d89d044d022e6bc229e95bc76b1,
  0x463aed1d2f1f955e3078be5bf7bfc46fc0eb8c51551906a8868f18ffae30cf4f,
  0x21668f016a8063c0d58b7750a3bc2fe1cf82c25f99dc01a4e534c88fe53d85fe,
  0x39d00994a8a5046a1bc749363e98a768e34dea56439fe1954bef429bc5331608,
  0x4d7f5dcd78ece9a933984de32c0b48fac2bba91f261996b8e9d1021773bd07cc,
  0x1f9dbdc3f84312636b203bbe12fb3425b163d41605d39f99770c956f60d881b3,
  0x027745a9cddfad95e5f17b9e0ee0cab6be0bc829fe5e66c69794a9f7c336eab2,
  0x1cec0803c504b635788d695c61e932122fa43fe20a45c78d52025657abd8aee0,
  0x123523d75e9fabc172077448ef87cc6eed5082c8dbf31365d3872a9559a03a73,
  0x1723d1452c9cf02df419b848e5d694bf27feba35975ee7e5001779e3a1d357f4,
  0x557b5af29163a60034ec4ae1e358e471e188a398288014f1747906449058077a,
  0x1739d180a16010bdfcc0573d7e61369421c3f776f572836d9dab1ee4dcf96622,
  0x2d4e6354da9cc554acce32391794b627fafa96fbeb0ab89370290452042d048d,
  0x153ee6142e535e334a869553c9d007f88f3bd43f99260621670bcf6f8b485dcd,
  0x71773e86c806833f827f654f2c5a7ab5ad1935dc98e086797aae750c35afccb6,
  0x0c45bfd3a69aaa65635ef7e7a430b486968ad4424af83700d258d2e2b7782172,
  0x0adfd53b256a6957f2d56aec831446006897ac0a8ffa5ff10e5633d251f73307,
  0x41d52090ea5b43402b1a9adfd5e2f5f2f1d1dc75259d25229d2fb88eae087a1f,
  0x4ecdf55bd36d423a334ecd13f72e69bd4d93d12cbb53a10fc0ba7f3e9ec396f1,
  0x315d2ac8ebdbac3c8cd1726b7cbab8ee3f87b28f1c1be4bdac9d36a8b7516d63,
  0x49261a5d6cfd4a9f2a051d9906066d04a21709c9411cee63cc015562c9226432,
  0x40153234da114723048f6dcb7b695b69f7a7cfca052ff51526f3898cce337817,
  0x6e986d063d9fffc8121bc3c2c4ac3e76cf808cefbeccb1bdd3c0d64738f61bad,
  0x5283f80e81fc4e4d1c24a4cbc7693894eec452eedf44871de8f67534ca273948,
  0x552576887491b06d69aef8aac5710e8d844f896957a41921b12a066274c5a3f4,
  0x59332dc761e3ad275048a1198b73d5c3a99ba75b7b7e5995378338df48d6e398,
  0x1b8472712d02eef4cfaec23d2b16883fc9bb60d1f6959879299ce44ea423d8e1,
  0x4945c4c7c62282f08e36b59ab0e33001759e70e01221c74d5505586ae95eab68,
  0x6f7d34b9199bf60a87b4b06539a1554c413bd07c7430f7a54c0176c94c1b9e95,
  0x3c1cd07efda6ff24bd0b70fa2255eb6f367d2c54e36928c9c4a5404198adf70c,
  0x72ed857fbb581d2d92932995e80188c7ad9eb5c8c084d5d829394841274c91d2,
  0x136052d26bb3d373687f4e51b2e1dcd34a16073f738f7e0cbbe523aef9ab107a,
  0x623f02ec818792941c4894438841d441653ec1e760cc09f5ad102f014b6658c7,
  0x51c0b9b1022de4d0fea7ad49bf6d814ded9541807df5a911589583ba658d4348,
  0x42c1e81b61b7fc0b04b48024c56f83108dc800179ca7530868724ec3239f8463,
  0x42ce8d45e3f7bbf7f10a8fc71ab6d7c30bcf843897bc6823208202d2e31fd072,
  0x6e53bfc3ec7be39c064e2f0fdee7a37b0b93965712e431394bcce9c75c22f738,
  0x16c96beef6a0a848c1bdd859a1232a1d7b3cfbb873032681676c36c24ef967dd,
  0x284b38c57ff65c262ab7fed8f499a9fb012387bab4f1662d067eec7f2d6340c4,
  0x70cb7ad7798e307ef85d4bdfc76f837420ea23a9fe16273d60bfc6cebebb5ac1,
  0x0c5993d175e81f6639e242198897d17cfc06772c1c0411a6af1dff204c922f86,
  0x03bf7a3f7bd043dafcda655d1ba9c8f9f24887ad48e17759bbf53f67b1f87b15,
  0x3188fe4ee9f9fafbb0cf999567f00e734c8f9cbe69f0e8279b5cd09e36d8be62,
  0x171f528ccf6584375a39768c480d61e13af5bf77c1c42652afea99a2ec6c595a,
  0x12f4175c4ab45afc196e41859b35ef88812c3286ee7000675a0563b9b8e9f1d5,
  0x3a509e155cb7ebfd8f8fdcf800a9ac697e23e1aabe96cfab0e74d4d369118b79,
  0x10f2a685df4a27c81a89920e2504c3b3984bc8f2e4c1b69e98712c65678cfd30,
  0x4959043e2135e0389ed8c6f81104cb6390af37d616015a881ed3363404687f05,
  0x52bd4073f5f900448262e371dbafcbba1edc155f03bf7f871c47f08dae05fddd,
  0x09e5f49790c8a0e21d8d93d54ab91a0e54573c9333c56321e8a16728cc9d4918,
  0x352d69bed80ee3e52bf35705d9f84a3442d17ed6ee0fab7e609a740347cf5fea,
  0x058ee73ba9f3f293491562faf2b190d3c634debd281b76a63a758af6fa84e0e8,
  0x6184c223124d658cd4760ab3c3b9668947b12f279437ccd375ef855b3d999798,
  0x6ea989c63c451341c91afa790b6f84c0fff8d09680344bc7434998dfc696c115,
  0x57f4ac045fb78ade81f9196c9db8a7abf8de139c4a488a0613685982e8121812,
  0x6dbfdc64a545237a88ee79c1752a74ce767352b5071a0d317c5b49e259491b94,
  0x232f99cc911eddd9cd0f1fc55b1a3250092cb92119bc76be621a132510a43904,
  0x201beed7b8f3ab8186c22c6c5d4869f0f9efd52ca6bc2961c3b97c1e301bc213,
  0x4b99c756e1e0b9491a082e28c55458ccd5e97eb59381fc872223d9e77ef87b2d,
  0x1376dce6580030c6a1c9291d58602f5129388842744a1210bf6b3431ba94e9bc,
  0x1793199e6fd6ba342b3356c38238f761072ba8b02d92e7226454843c5486d7b3,
  0x5048857b8872cc1de188947dc3ee984e217d264c7975256fbfc74c8721472d98,
  0x5c772c20fc285d3e1854e3ededdd52942cd9b61c7755fe46dade9f89de8b3bbf,
  0x6e40d518ae3ce6cad092e810909a916c60fe77dfe7bbb86b5bfcceba1ae18879,
  0x22de7a7488dcc7359fee9c20c87a67df3c66160dc62aacac06a3f1d3b433311b,
  0x3514d5e9066bb160df8ff37fe2d8edf8dbe0b77fae77e1d030d6e3fd516b47a8,
  0x30cd3006931ad636f919a00dabbf5fa5ff453d6f900f144a19377427137a81c7,
  0x6203ad60b0341baa14e5c48b915f6b41e4959835d1a839996dcfc378b662c474,
  0x71e8d0ac035e59bf8007c0f3af24de07b674dae77042ae7dce7ae94770d76254,
  0x253d1a5c5293412741f81a5cf613c8df8f9e4b2cae2ebb515b6a74220692b506,
  0x035b461c02d79d19a35e9613e7f5fe92851b3a59c990fafc73f666cb86a48e8e,
  0x44476886a8f10f589800c8e3956f5f26648da4de0e86f19d35b334977c0fecc5,
  0x23a9928079d175bd5bc00eedd56b93e092b1283c2d5fccde7cfbf86a3aa04780,
  0x13a7785ae134ea92f1594a0763c611abb5e2ea3436eef957f1e4ccd73fa00a82,
  0x39fce308b7d43c574962ae3c0da17e313889c57863446d88bbf04f5252de4279,
  0x1aae18833f8e1d3ac0fdf01662f60d22bef00a08c6ed38d23b57e34489b53fad,
  0x1a761ce82400af018b2e80c064fd83ed27c1b3fd8f85d8a855513e033398513f,
  0x64df4c0ecc132a1ebf553cf334d88ed8a7ef1ec487821005a4e385d6fae179f0,
  0x47940c32599822d67897c4062665e15687220d2c5ce5713ca1ae44cdbf452141,
  0x275a03e45adda7c316dd1a87ca22e1ccdcf6af2830a502875244ca749b73e481,
  0x2e5a10f08b5ab8bbeb08e47e5feabcf807e561453fc5648b58a253cfb6a95786,
  0x6b4216c76c229946eba0b6ca567a5e01efef1919cd3424a161477bd2d2cdf30d,
  0x1459cb8587208473b84e9c333b2932f1c141a5b6d594bec4e033d82cefe78ce3,
  0x193ae5921d78b5de7b92ce810e14a40052f9332fbffcfbbd5cec7e7b338fbe1b,
  0x3097898a5d0011a489111fb2c4660281374384f4a072820560224be67248e82c,
  0x378d97bf8c864ae7571782fd96ce54b41979b2d1c465b4d9549980de862930f5,
  0x47e939590928513aaea5ca5fda898a41734378eabcda9b48adc35ce03f59d08e,
  0x2eb04ea7c01d97ec88136287ce376b08dbc7f5cb4609342137ea32a971d17884,
  0x668a95bddfb878732be2633ada541e1d1e163418f3ebf82316f64b24ab49cf05,
  0x57ff77ffd3ab3372985f839e7cd61fae628a683f22ab245256260a46ba14b26d,
  0x4e185328f8228371b8957c496316b4fcfd3c1786cec9a1b8f855edd27597e7af,
  0x36425347ea03f6412302a1c22e49baec861cbda476804e6cead3726f1af2e7b0,
  0x51b825d33b31b018ca3d3590dcc9ca41afe09f699191c41acdb5b3ef7e617b78,
  0x26b72df47408ad42cc996cd85c98a1d83f5b5ca5a19a9701ecd627e59590d09e,
  0x629f82ef3b843d15e5e67fbab2857f7665e39a2289df756ef82eda0e3baef82d,
  0x57da05c9a95902aea1b804e493ea27d661a36e5bd630fbc5b2565b42c81678df,
  0x65bb185aa22d4a6d0b9741e936b955bc6322fb749f73c9e95466747ca7d79dec,
  0x130180e44e2924db1f05636c610b89aade01212ee4588f8959bece31f0a31e95,
  0x219e97737d3979ba73275acaed5f579cdf7793cc89e5b52f9ea8e7bc79263550,
  0x4043fd3082574e5773a8654e32dd4190a6728be3fc54fab3644532e1c79a1800,
  0x5784e5360ffb6781d9cbc1df6bd8549c71d81f000d5c4d2f071dc0f28a21c720,
  0x3cdb93598a5ca5283461363f81c489a23b0672dd7d42cbb49c12635df251d153,
  0x0e59e6f332d7ed3720724b927a0ca81c4ad0447045a7c5aa2861ce16f219d5a9,
  0x57afcf069f3680a6ddcb3424ff2ab8d138a48f0fa72fc06286718f66cfe1df08,
  0x51ba5d4899d7835ec1a17fb1bc7101690828fd09ec92e732769a61f5f0c66085,
  0x1b064342d51a42753d7369467222697a172cc07b9d33fbf943b0a3fcff2036bd,
  0x54aef45559da8b2c7472c3ad5a0d33086da6e4df67ef4ede874adebb2902df82,
  0x30b82a998cbd8e8a2f363c55b2882e0b78fa9fb9171221b73eb310228a0e5f6c,
  0x523a56f81ba90ef3a40ebdf2c848c8ab1a6c9889ac6c78eca8147a560db320c5,
  0x4fc581cc0a10b8c1d357e215fe5c7ec1d3a0931cad9a575da613b282fb1fd4b4,
  0x23e4ab37183acba463df7a76e858a4aa8ad71ea715be0573e46f6d4298740107,
  0x2795d5c5fa4280225d33094e0beda75bacfe14640de044f2fca995e2b59914a1,
  0x3001ca401e89601cd765f26dd03f4c45a6687c3df16c8fe4c26d909dee8b53c0,
  0x0072e45cc676b08ef7bf86e89280827fe84b5bebae4e501de7fea6bdf3471380,
  0x522338e1bf861c22cf8eeaa5d060db37420d3020e1713cf6fff6f239e30cbfa7,
  0x6fde059ef86c70e457aabb383afa5baf09088f95fd8322f957b618dd020277ff,
  0x13de705484874bb5e2abe4c518ce599eb64829e2d40e41bdd0c54ddeb26b86c0]

/-- and the matrix. -/
def matrix3 : List (List Fr) := [
  [0x44d46fa01da5117cf3fbdba05adc0a64af6c34a56f1e3c6cba01b7a582af8839,
   0x3fe667e00c2b55cab44507505bba0e3a626e1ae605378c995a65a784ff14b250,
   0x63ce26c4206c020d51deaa55ffd4bb75f2331516053550b2ab85fd269bd880d9],
  [0x42ef9cc13681afd5b00dec34395420d789050302f55bfdf81467c45c79019119,
   0x0e5584fa583dbae95ce13fb6befa8c6a8726033dc2ef49a2935a0c875e4e70b3,
   0x5e8641d1c62a0c9d1d2fdb568dd5e25159d2f0c278522abe614e27d5df217a8d],
  [0x16582a527dd2eaa72fb34e6404e4c5a3778673b33370e0c1613548961eba050f,
   0x0b69c4e8a57aea1a6666cf14bbc5781c279d6386d13ffe4db266295b4d8f7953,
   0x42d7e3dffaf0722a5079353abbcfb0458b44cad327804ef6780e71fe3a3d9a2a]]

/-- For three inputs, -/
def constants4 : List Fr := [
  0x1a3bdcbfc11dabfb6ed0dd5f5a9b38191488bce9eecd811c10f9378b32db8c61,
  0x52b733e857912fdd2248dc9638dd79b1ce18b285b27792238b44c2b23c0f5d5f,
  0x47d6df02d73e6c78ced550ec8df1a459ac41f318d8b904a37652b581b2b766b8,
  0x11ec284726dddcf3cbb2b81862c9cd95e9de81ce0317302e1ef432d59b913388,
  0x19e21d749905904f3e10cd57f7817c2564c06ec1b1e229def2129e79a7a77738,
  0x6eeecf4c83e1ec164217f3c00956d83c3bd845bee2d86b263cf3bf89a345e5e1,
  0x10d5808ab47295f7a950dc72f968398b9c67426a217811b9bd7e97f2a261992f,
  0x25d334fbadcbfd26449c4ce1472f961f7d401a3ddf40a70af5c10ac9176d151b,
  0x3ef8a46ec07ee551ecba60b1601cbf6e3664418331a254729b7c6a5c3d13a6c6,
  0x30d373e298c09d2a6efe661d708fcfa6163dc61ae1eb103d98cf88c63e482125,
  0x18769839949b2dda9ef3f111acd86e10250ffad4c4c4263ea970e4f4726cfad7,
  0x2c941286d1534ff3be3a66f9dd59833e65b1fa67db23511f7b4b2ae3b3d66bc9,
  0x08b6d9c90b4139ea70497ac8a22b30fb9b76b8ceabf70449d282b57d98c60ddd,
  0x3a8a2dd917222a71ca678b5c0a803a43c62de2f2c9fe37931b5b2a017fe64638,
  0x2dc17308abd0e731b3cffafd296cc3e6e2403dc563baa1c797a68da9754dd207,
  0x1d04e542f54431c23f9d1812392a0c87203144e343c459d3ee640b04e203be6c,
  0x500760e2ef6bf463fdecbf7b47f4adaa8214c797e59359439d63169e1cdb9dfb,
  0x61f36faac1c12d756dcc3b5491f2b22565409a4e952b8f8e726ee126c0e1c0e6,
  0x49e72db524a48243849fea068e58d0c078b0c738cd482a2e2160602657456ccb,
  0x4a74677fff94821e97b20b86063c36d35c6a2908c0a19a9f130edde9c8ceb6b5,
  0x62d27fd5080b44a436e13066ce1c80ddef2af086c2a4806bd99fa02de9726ded,
  0x15a26c92fc51dd285a61c2c1379f6731377aeb29c62696aa6a9c109c2991f200,
  0x1db900a5e9b2685be9f8f02498123ac71bd7bfa40b6853ab527a8d2512b9aefb,
  0x6ff755d237742498e0b78829cd8358bdb831e96fef08eb192b7e334123080afa,
  0x1595447e5b94a64c8b3681f57068e19ee3696440ef785e35123886311f48cd1e,
  0x2b0eabc08eef3abae3304cbb2efc67e7b437bd96b6f7d175daed6da5a2144e8b,
  0x3a345ee8e715f3226e52838652219202efb4e6d4f057f904d69d3fbd781e39f5,
  0x49eb2a07b5da81b57b7aa4fab19e691f9a684baef4cfb5afb6f46d23cbf1a9cd,
  0x3051663ef7de7674506f2c873409725363849564815b8bd291f00b9c60b4daf0,
  0x041a632a7bc167f67ca9c3825021a05b13f81f814ee101d37716e12efec3121f,
  0x6a5ae006b70bfebc1a485eed2c078654dc0f10514e8c739ca2a7019f42444ce5,
  0x0f3dba730b64dda2bc2eaa50ede0fcaa86a37c74c3a17be97a9d969fca21fb37,
  0x6d6c02004f2a4cbb965f9e73799041fafb49f61aee66232f45ae09972af08e86,
  0x60391f436a32fdb0eeba8578313579c04c48c126f4eb6a0c49e249ff1c1fbf4a,
  0x570a30710a42539d4440ce9a2cc7d9ac102409a188960d0fbd249fc4352bf3e5,
  0x35cb6ce55352599332471ad8be46ddc0cf598e0e36b8a8fa5fae6f26277b318e,
  0x48a8116b254b171052251f353c93ca3816734e4e0baeea10b4269bbab9a2be55,
  0x126258211a4bb2035121c7ca129eae719d4ddfefa99921a8befb7a160e0f845f,
  0x5bf6985473bc5500f140844f5b66cea85815772cce03596eda60e6c7dcb4ebbd,
  0x5af46d3dd02261d893c418582188d328a8a84ff8f6ac6c1997d3aaadf64220d9,
  0x5e3c84925609016da58df82c1f2b51590e3b91e5502dca2eba13d8354916ddbe,
  0x410e6fb4390379a8b726cfb22a9eaab7232bc4b60eaddb629a4aacfc7dcdbfcf,
  0x2ca5debb9de1c4bbfa0204543dd9757241611cd28b5eac2d7f37baa293fa2618,
  0x4a1554023154a99b4572572ccd5d89fa8745c117a2a85e5786ef6ef39410d611,
  0x2ca75fb22881b238b6c96da6b908f922da8b54f909237051775c64fec8d5920c,
  0x546ea8ad3dffe14c4c96e4d6d8c43c644212fb663486165b34cb26ddd717f341,
  0x6b168ee87f2c532efdb378116dfe462f632a18eccf1e9bcfc740d35e535b2735,
  0x4cf917a780b850292f44502b80865d3664d75213f89e8ae5861dbcb52aa95e76,
  0x02e8dfe9046d8b951532466bdf1b62571b85e551b34c8bbfb1ccd3216271b73d,
  0x4a34d2abd01f09f743cc56a3f87febd60ae5d88e224918d840656da973d9252e,
  0x0a3fad26c6318d471fa376fbaf02d341e41e687db6f3da88266de21c7157e940,
  0x131c9df7176eadb9af3a14f0f53a9b87196ef60bbb89b3630142ff8d9d69137b,
  0x5753682a8120106b42241c86deee879263d81fe8e3423e01f567316d9524647e,
  0x5ed9725af6a91090027acfc12100733a9dea89771048aa2dfe40daea9546645b,
  0x2c7b7a87f31ebd2464be9f211d41719b453939d53ff7be07a2cc21741d48b467,
  0x118159eb07353fef60e9733077cc82f92a6e2bd361c88d8122e9a292217757e0,
  0x5b4626e787d4a4b00ba4693fd7900ecaa19624be9f2fee6b9c3b538d4f896b8a,
  0x18cad22ae06bb0e8d043f7928477219e4d38ac544ce81c4c685267089e4c7003,
  0x0511149594758e789b440ce534b52b6c508ae1881669d1fa4a7e551ef84e4dc4,
  0x428b8532efa194a7f5cbf4c296786346ddfcfe8f2bab26f25321f5d984dfc307,
  0x00fd035cc129e91eac66d841e2864989d1ff4853662166143535603bf9460621,
  0x2c167565114475412c76f0df1961eaca9deb17622c9fb6f5ac8a89a29f42df69,
  0x10cac3ff02125419ac84ff80295589d1124a1e65a94e8d9b63a411317c7f5728,
  0x7213c2f17aec536d0a5196e877d1626a63d7db5b4e3bd77327eb3617b932aee7,
  0x1b86ee2e45fbcd59fa43edee6630dda5cb3b894eb4701eff5fd53967abad2666,
  0x0b941850091bd16875f408f183fb93d250c538e5ee1e8979e960b5b499b2f070,
  0x031f75d53bdd5ac603c252925148a74fa5f3bf5d9ffabe64c6e932be904204ec,
  0x55296a48dd399c65798cdbda11e89f26f998f2d33cf328e87a1c364e05be492b,
  0x191175ec337e64a48785a083559176168bcea3db2822630c48f1d497d03e1e35,
  0x33200b518e6b1a1e96ba214cad18929e7f5b4e3336e522c5fa1febf69c0818c6,
  0x2f989e24f97dc06c075bb53404e3eaaae32a1b6d89d9e09acdeee65712aa4216,
  0x0de4b77163f1572bbaa325f48bde7a429b6b0f803ade45a0e72cd2bdbd84680c,
  0x6af270d408f492402b7271432b6c443abbd1f0e220888d73f47498d59044d7cc,
  0x3d5b5310e7b6be63be8f12594ecd68108f4b3f6266683b13178d0c80d8530c2f,
  0x5f69d748d06e22916088bd21fb472334ddbe5223ff494b6c0dcdf62db69d43ac,
  0x6c1fd7dbb3298da86dfe5d0435b26e0a91fe6ad6aa25b9407d5da544e6b9cd27,
  0x37172dd49bf14ebca52e1c31b60f31de8213644e330bcf2cc59684606e62537d,
  0x509cf829b68e58861c3d6bce6046ac1b6e9c065378fe9556348c0c1814808e20,
  0x529d5dd132f5cb4b71994ae6b330b7944f0fd8ba319582d2414b9b10768b7448,
  0x5d251391abee228833dbd24be99d163ba9f8c92a2cf73a4e1f8a87e9c4ca97ba,
  0x1abe1d77226f2eff6f1a6bfc6c8d9e00dde1da9d67858e6984e53bc2aceba535,
  0x4ca74ba72baea6d84fa8f2a05e387a1c41a5a1b2f1a479fb11bbf9d5e09bd01a,
  0x232bfa6a3120224814967315ebf3d8c88b2eb0ea8c20c79ce854f90aec7a9b91,
  0x109f5bd722c8cf28ab6a3852970bcb665f398a8dc9d331958dc291d49a1ba9b4,
  0x4a181a5de6c79a05c02533350ab51deee24b8f5b9154c5cf09ba5e25862ae176,
  0x6e063b99c16028df94b1eb719164ae8c8336894791516ca2c37c5a1a394bb0d7,
  0x6bbd2d3a643d301d25a8cf156542165abee3039068fecf501e9d39f313ca2a87,
  0x04690fe1be7c7b8c10c81e63f5e508fe93853c61f0435f81eabc9997fa3b99f3,
  0x6184e3be38549f7c0850cd069b32f6decbfde312dd4b8c18349b1b3776a6eaa5,
  0x419289088178ad742be6f78425c0156b6546a18fd338f0169937dea46cfb64d3,
  0x3244cdec173b71a4659e2529b499362dac10cb2fd17562860c8bb9d0fd45b788,
  0x0f0c981dc7da9014f7fc767217acb02b5660e6f965da2f9d27c0f39aa96ffb05,
  0x3eb3e451848da858f19c49a5e8ed645868f7c4ff3936e72764de40a1dcf74994,
  0x2b22aac0b5767e14e35e2b77cc2be87bdf54b14a37fba4faf110e8d07356c8b1,
  0x3085943bfb5091697c781c1f9681a0316bbe5bc6153b56b88bb61d3574e18113,
  0x013fb15ec707fa4d94eb197f2b826652a42d8c7e3a6e3c651c7d1384534c8f7e,
  0x52e0cedcd2eec16e0272821b105b59415e283766123e114178372c00af0af328,
  0x38a026b4999d31f92ca4a4778f3833c156649acaf6163190c89e33d4285e842f,
  0x53411fb4c845a384b36c21a93d78e617b8e708fc5f3dfb257f2bd08a692ea7ca,
  0x02d3beb65776c1ff767423cfd89e0a1114e75d6bc96a45f3f767301ba78a3d24,
  0x01ef50f896ea0f7159a64872cbedde170e16616db53f0c738c09563f96772173,
  0x289ac68db13fda856d5e507ec2d9dfc1e2d343fa2ea66b822446ea3dbab3ed86,
  0x2c58ccb44d61ab303d49c1c30a1e4cd07ad9fc8b7f3f0d78b7bc5745c9b711ca,
  0x15e5a3baa70624537828a7dbf0647e0d7507435e339e413891ace5f29ce078eb,
  0x0c14cf170ef5573850d0d8f285de9fe17c6e779c821d9913a113739da39e8e04,
  0x277d88816bdf7241161fa38bcc427aed769613e195e72ee70629f35e06659d8e,
  0x465aaf569dd9d0626ccf3ae12f493ab18cc00524b99467330578640771c67f0b,
  0x33afc46c06564f1af1ef0da4dd0c4cb8ef0766c819489f5f37f2c228f4307e3e,
  0x5023f7a4ca1254c319cb8f70a62c2168662ea78d1135df69f0465c7392022262,
  0x4a9587a2f2ea56d03fc4b8046bd808c37381f4bea68a3be98ef922ed458c56d4,
  0x0b8485fdb3cd81760bc9e4d26725a140932b272e1e9d5296298e5f869a89b9d9,
  0x5eee00a428b0a4cd96af0558c4ed70ce979826803185a91238114ee9b8c4be53,
  0x27d52926466fb81aab2ca23653f180ee3f778df5a835576c44184164f6ee2307,
  0x207a46740586ec29dad6aafb56b20c268028b717d466ff36264a114eb4435622,
  0x341290e81ba29124cdfb288e68f9efd8ce7369ac1fd8602b4f9510176c63aa14,
  0x342facb0775722097b366a3e5878d0e561c0692817a93897baeb6707f992564c,
  0x593025dad9d92e7f05efdc0b1345991050ceb5428c265531d3e61dbfb92793a3,
  0x0a074e297087d24324f072add6e52960b151e431af10a9e4ff7ebbf0ad7fc3e2,
  0x2bde7ca24f10248d0d6cfe61f10a55d3e44a2868c51781eb24a2fcc1d1752de8,
  0x4c21a64ee9726ae676cb9349f6a9bb72d0c3585b306439fbd0206cbae2ef49c2,
  0x0bdbd65303f4bf4332d764d4ef1f9132b562c58156e28043e9c18247e6654fc7,
  0x28c3fdc637cd545f5039fdc9c395771b87ee289530688b6a35a4589febded074,
  0x2da62c361f104573017e1013d5bc837a0ecece8e2e2375b494c9018ee9c5c7d7,
  0x03ab1d4fc536f0bc1c53865c7e1bb29b59397147da123e8e0262ff0e51d1ba39,
  0x2553a916ed677e8ebb39052d86622b2b07e8da35d26e822f95f179626273795d,
  0x0e82d473f428dffbbc932a2a0219ac2e69d55f10797dfe0042f41343d9a5a5f9,
  0x54d65d44a008fc60ef7dbeb22ddda4ed4ba80e4f1f3ef28eb3e43eebdcece1d6,
  0x37e62d7a988a30917e0c59ae31baa0ef4f573bdfadbbc3b26cadb6a7de1a3884,
  0x0f5013e2713cc048f3e8c06870ceaaa068b0d58397642ead9827b6808a5b7f2f,
  0x43c6e67e0bbf538c2b32f6b73e7c17010c358d590fda5b0ed17377d7582fa8be,
  0x2d3f5ddab40c0c8894c83ba5042f62a9f86a204921688eb7c164aa4ca5ba6aed,
  0x2e6c3d033a391929b20bfbc85e8c3736870ca1b93c7393002c2cc60e4767f302,
  0x6a617c79cb8f037743ea4f37790ee655c9f5e14c17059dd2b15d217592275c56,
  0x49d75e2b7372189b23f2dc62c5bbc6e3251da52169a7dff3539ebcc7efdcb1ca,
  0x2854379bd77d9dc37b4687c2e0d6d4f0830ebcbcc478fded97b6861d0a239fb5,
  0x6c0472347716685e5e341e4dedb6018ea6ab2d2068d75648947995080599cc44,
  0x609ad724c3d3b348bfd03d161c47d025f58d228226225bd4942b7ed8f1e2bde2,
  0x4ff6cc844e1e93d8dbf7268976ab0a8bc4aa09c08300f7026dfdb3bf7d975f2d,
  0x1117487e5f2e2a5fce239e86574f617b6e28d9744b8058b32a02b3649f7c1335,
  0x0eac1e00309bb6fb6206ae31fa0a57aec5aa0b3312c44e372918963cd07b14da,
  0x4bbd8ee98533cc0d8c90031dae91db94ec1ac78fcd19839fc680395726fdbfd3,
  0x33fbfff73e78f27bebf149877ec02c4cf9e49dacfed909c9880b2c53ae3ff02c,
  0x40d4931fb1817a1cdfce3e28c48f4236b55a943369d2412e3f6a101690b9975a,
  0x52e1e8e935b400f00ba37de69829ea3a772a82bc814040f5dc5537a419c0cf8d,
  0x72ae1bf7b2d1d8a9f831a4a6f4d37fe40bcf86a490f408c81e8fcf2571055c99,
  0x03be520dd2ef2d687d3296dd9216ff3d27136fc691da2c8fbe4cb13c92c40c0a,
  0x71bcc7b912efabfa4a61ad6b4ba27b030e35d45a23f4c908bebe0192d502dfeb,
  0x34eaf350f1df99218f9778d445e748ba4df04367643fefbd08f195e6f1f3d1f9,
  0x08041eacd9bb78d0fd0bc93a6a27bf3e784abb0b8be4792d3e558e440de4921f,
  0x169ce0ec6424a32f14c4a7c7a2977a981f83d2c464e487c795d4ab196ec2d72d,
  0x4767b051e5b6358fd12f217aae53bb9dcee10ba5ffee68f982209f5e5bb27f53,
  0x2a59f16a37626bdd5536c5546f046b608c777734990103996730611728cfef22,
  0x6388405f3a1e87a1fd3183bb12a89c71d5bbeeb0e4b73c227b1d840f217ee15e,
  0x0e7c7e19ad92352c35e4d302828f64de68750dac64cbd944f0eba6c0ed003758,
  0x64993873a0f0be13c99fb146c2e915e999d2bf162b3c96c1a218e858d5372df2,
  0x44beaaaf96f7523beaea3f87c4477b82ff3e106a73700ea809f6fcbc49647758,
  0x25ac368f880eac42a093bafbc8833e370a05c1825a410f01ab33a3b566f3732e,
  0x41398bd829e078ad91e5f397a8039994c3023c18dc9912b271299ec416e0d76f,
  0x7011bcd0823f63e0e21e314fb19b2571fc89ada110d1db89977dcef4de939b38,
  0x32baebb570a42e0ccd32fe3ff9b1b09c83d2822fadbfe582f7b0d3e6c840cb63,
  0x66993138781f8f72a8591a00794ba3f483961c1365cfbce266da90dfc6710f74,
  0x358746a6e7a2896ff624028f561e607204b04930f4a9c7bfa74a82e28b620ae0,
  0x6004b2a99aa6b5e0c1be60af96a5000964412424a13cca7c6b08b3003e736d52,
  0x66f2d38846b6ed10a74b57f9ebb407ec20ba831e6be6bcdae1a7baf96bd25bf7,
  0x34a713c5af020dd521c31be022499e2f82fdd371f19c29a2ec3de1154d8bc7b0,
  0x0d49a2065f03a8c11d95cc343b9b5033f5f686aa59dbfb170324db722d2fbe8d,
  0x50f0c5fcf8569429f071f26b49b6141cd13a0e2ccad0f1e9077794ad0b7bfc99,
  0x18baf0e4466fee849f22f1f5d334ce97cf29696e4ebe754f18c5def882543bb6,
  0x53d67dee903d495c85ab072fc63a002465493299a8c7a09340d71be619a26474,
  0x1d9411b797909021c59edeb51d19910815a7e024f3be0aadabf4281ceced8ae7,
  0x3010bd38bcf15584ed5ae8848c2511d72a0e0d8f77efb64d766b4725799bec63,
  0x6250ebae2258403d25295d2fec85b464835aaebc7c270f786916d941492e7671,
  0x42cc150368b523d18c0f08fc560a984f6f30d33db022f8ed231c605d89356fdd,
  0x053495c35de399f5c76d31c9854b6315a307033df510ea937d8e7f6dd6e79736,
  0x2ccba4c1efd750b52348fe2984d8a69ec8082de22c0cb78cef7050a7acad50a3,
  0x1f4d46563aee745401631d9f9b5e9f0a2db7a7092702aedd214c73b1924d287a,
  0x1da13a979f5c954f06c6cd246af3186ec0aa5647f4e1f34c9b54da6a6261c323,
  0x28b6ee5ee05a64486fc82612898f07841de6ac234af65ea75044244c0e1bc21a,
  0x6e66acce6f6024b7c02c0a5850c731170ab57d5254d536c46d07ba276c88d314,
  0x68228f9fe66bd8787bf5f93ac07c27cd393360fafaefc6d89bedcf374798768f,
  0x35fe00da8b670bc306a19ea32898e2cf384380f1e1faacb9bb53fd01d7db61cf,
  0x375ff92d4b5afe7d2b7fb35e7c2636a61df3af40c61b316dd48c2ca613ce64b1,
  0x55ebeca3126f94387530dcc19aaa5966dbeba73e580f3ede6ca9c5ac9cf8c07e,
  0x227f8c7674e8eecaade74fd162018207216976947a5f13704fc21c6cbbbe9125,
  0x0089fd90d4e2e345ca3da05be7cd1d8afa3528dcefdd08dd91334129d60311ca,
  0x65b80ee6bb4a0de9238e8eb69258a9e866defcb7ca7c9431a704f284c318a724,
  0x2708e450652ff5e286daf6cc902908e8cd0b2ff9f877eff3990d4f7752517400,
  0x04ee97ab7ecba2486f642055dbc976d936cbfecf44f64c49d2c0d66faf6070db,
  0x0a279305ed49245258fc3b0c0573810cfbf02cac488b7ff91eb6ab08299c6f28,
  0x263bc79ba831a14fc803b6cb87f95ecd312836c6419acaa12c240bfe72085954,
  0x2591f019acbf10e7fc66a78ee289233a50a58ebb1726cd177d7ad964dfb72649,
  0x32c2773f2104c0220ec42766cdc019619091c797f92e0ebcd42466334d48288e,
  0x00077f91f954c6d1364047aeacb24d38f6ed2c8f9d87434044ff2ddaffa4126e,
  0x43a52a54cef8b104894f9173712a38e1d71665d27f030beaa8714bcef263efc1,
  0x20c6acbba48330b076a7043f0549da736dc455d09716bd121679ea9867a202c9,
  0x45fa00d6df85a4f73caf321178661869b9c761d7058ed42846c2f9c15477e7f9,
  0x570cccbbb76b5d21867fad8805aded2baf054693bc4ddfbb331823e8dc56c542,
  0x70a1ea57593248c15f0b7051c1ebc74f3b6fca29239adc03eb3e5251f65b8333,
  0x23f2a31a8871972a472b78dedfb828e74b9e976d80f414023c497cee71341d88,
  0x2623a6dabd84aa57c08d945095d0b1e0386a1d0d551a796e56c15ab6c0a88573,
  0x5a700c9ef9bbf2ede7c90678409671a5052cc4dc96d07a97174a76794bc8471a,
  0x5b58392e93dc08b2090ba2d961b14ba352adabe86e469d552f46ca8fac15f76b,
  0x5bef7c911f1b76476c983995d96fe37211bd83719624d552e5436a6b1accffc8,
  0x3b9eeac5a9602989e277ac9ec05171095ab6bc19d518501981aa32f3fc1be155,
  0x2d9429f2ec18178153a807e4e9555814bc771457a1cab125f71e2e95f3effcf8,
  0x52c0c71cc0eae6a2524518214a579a0e4af10a67e609fb3175e0b9b3ef48c53d,
  0x2d257f7f163917e23d99c8e42aabd95b7046bfdc7a271a25554cc370eb5f9d8c,
  0x605b93d2c070b25201097565e4efea4da3c1035dc41a6f860edfa16a3fb92130,
  0x0da1fc52458b91e5860a0fea42f47c313558b35e2ac7b2212fd607344b59c542,
  0x6578e1f23a14556c1846c9209131ddadc5a6958a83178fcbe16aca8d0c818649,
  0x4c1e852dc80d28bfb33893a56433d278813c99cc2bcbdc46d82fa53655bb267d,
  0x6cf8354f4da7d38a87f31cc3fad84e590507591b4cd9fc6f453dac185acbc4e0,
  0x31062bd21aabe816e7cc4a2f0b349416d52c325acb366e765e523cbc0fbd8afe,
  0x6a9c302081344c218d5e79e08e77bd76d720e19d283eccb1d1c6e889b9d16841,
  0x5478547c289b073567be113be04a8242bc358d1979294bc79e22aae31d09bf9e,
  0x5f25536a83f33b0597074cc0a7b06372a8a165672383953f0005895d1e890ca1,
  0x5f90df3d57a3976254c32882800572515374678c8c47d2cc0232765aa122d018,
  0x40c6e385a5b22e31c59c6e3b2b227247532b7e0a19ded97e3befb95efd0b5bef,
  0x06616d16c84ff8a2fcb929fa81975ddfd9a03436a147f574752cf07d2fad2b80,
  0x5beb7d108d84bbaa4604aa66dd7c90e080abe3a8ba5121d608b73a886fcafc62,
  0x5a5bea7374768fad445b2390cdedfde0eee214e3bb4d284e4ceeb7f262bd1d72,
  0x213e77ff687151a1fc29a60fb4dd63bf3c1e292df69495cf4d98376b2366e28e,
  0x0c88640bf3a29a0dd37d9e25a86d2705c7a7c3885b18d445ea91b1ecf268c93b,
  0x48c1b60584c00147340ec0884d2d9d478df292d7d8f01a7ef4d4be687356d669,
  0x1a908e3a411119c79cfc6b2bb1b20ff605e7021902b3ae5e180345d95c7b38b2,
  0x5d50629b33b1c031d411c7ebf878c14a6147314f7a0182631e22b74667e29e27,
  0x14bc5cc52b8a043ee9b57b13c0f926b2402780c157b3b7f5266a6e342fe4dfa0,
  0x2f0ebbef67c9fb320f41ab6c922361b0453a639b9ed15e7342317f2b1e96e406,
  0x010f62c93ee52b1d7431d6d5a76fdfa9f504474685052f0f6329c27fc6ea1dab,
  0x36db54023387dfbf8bfc95d24fcc4bfd962031e715edca852e83acccb92f4ffc,
  0x5eb49b762ee81a3ab49c1156bb71a44dcc1b97f09b75230c01968f8351e01f0f,
  0x08648fd3a3a70bd7a44ec37184859bb0c1176ad6f2823d43c56da99029c316b4,
  0x232862ff51c9ea4558ebf1d121104c94907a916cbd1bf516b3db5a017c642126,
  0x661d7f2a4d5e809ad0f8fe6fcf3d7e00f49db9e050313ebfd9c7a284b30cc757,
  0x71a50c66f29a29da54480dbc27b7bcb05c07678a31f3b65bbb5facf95425ca55,
  0x57fccbe64a95a7906538eda8dd499b76f2350139abe7c7d27d7b8d7c5b64e2dd,
  0x14ec4b09665c3bbebfa6f8f436d96d46860e8ba8df1f8194797f3d52817eaf25,
  0x2d17fb6f69370338b1bb855119fec355d442a06d720104dc72cec5d62d1d21ff,
  0x162262a3fff35edf6531a16d3cb0f94115d430dea5018e9b89909581c66d0f6b,
  0x0328f7c3be73907c280b77a716b1b3b6b00fce49a169a3cc6e49e33192d9c375,
  0x365b7a95bc5aff9b6e5dbd7159aa8d28f5f4eb6c4b3cd5d530a6fda80072de53,
  0x6eb6ccdb8e6eb4360dd18935895d67a5513636982797d53290a84982ac7b9375,
  0x231c46dc7af48101e5cf8234b8a41b6bf2c7adda1bed45fcf3632fc406ff5163,
  0x6707520af198f1273abb45e9ac607e4a51a928dd262dbc6f3b277e6b536e9df2,
  0x60ff8a22f1dd0e9180ce896bcbd11b039442b9731cbd30064b50f5991f8cb05b,
  0x55ca5852da0515bd7048a96e1e29b7ff109f35fa7b2721f77e7dc0feaafd179f,
  0x6d2c5ba18d24eb3a8695116fda75b71ee01e7516dd285883e89f91e8e8734306,
  0x67936473f9214ef9a60824574058e98f704a81172bb0fa6de61dd054d33d3b41,
  0x50d83acf90663c7c5418a2b3792c383c25b8d58fb16ee25614069410504bddde,
  0x5a7898b12daacb7897982cd665c9e3a094f4aa8cad84d505c6a717fda873fb40,
  0x4b4ff353271eb087c6344cf1f94c3be37ac280b1e03aad0d6eb4191a2afede92,
  0x29cfd23e206fbe6f9f722f56d680ff179f9673a80793ce52ebb5b9ea1de2da5e,
  0x3629bd0af96291df86ab06cf4499d79217247cf2d2b5cf461551aa47ec524f3a,
  0x10e74cf1bc38a2c1c0d224e687361b06b3aead22f7ba54e3ebbb2fdc8c6c2e5a,
  0x4e91f3bf16423f583db5c5ea1b7485d9c032d62c9dd12d1e322cab3fd838e854,
  0x19ddf902f2ad41b08365c726e94db4b8a1e036cc0c0f7537252a85c5e78b59a7]

/-- and the matrix. -/
def matrix4 : List (List Fr) := [
  [0x298b7c2407511920d8e2f173fdf03c8c80d841a04def19fcfe701369758527dc,
   0x2c58f3708d5295f39bcf9803995ec4832e8fb6ff53b6621f7ca8b86f916bcb5c,
   0x5914b33fd35224fd55471ad751fc62b4d01db650734d8516dfbec88ab333893c,
   0x5c49e1934862d807904970e1a178b323cec2d0f7becdc1082ebd56a28193318d],
  [0x0145e8e03f232af259daf27a7bf6d87eef09ad0c6a5070c6529f86fa18f8cec5,
   0x4024abec6f929bfcf86216af1568a890d33803dec7e3c584942271a56b82ed74,
   0x39602b2f398221ff9fd51bef6f9bffefdf327c657471629e44f9ac0d3be2dcd7,
   0x4aeb8c69f52f416f5b4705b3a73a4a8edd8d681b3ba64ac91a76ad9b03a4f039],
  [0x2d86f821617e6763543bb9d8d5d6ce12f8f983aee87876ca82b3229cd0921da6,
   0x6b123db55b6972d0d81a3741ac42d704e14707d98f976fbbcf347b6e4d273cae,
   0x59c978e04431e87e06089bf64592992e8217006ee9bc5a7f4cdd9e9bede7087d,
   0x3632327f99c712c2a1dc345fd77ad7c8bdbe1cfc6de3aefdfc4579ff841d2c91],
  [0x469c003415373e6cb7df81d0937384f6717e951d1637a0d10347e4cdc4a887c3,
   0x29bea5c6b354f59988897aedef0ea53081c7a0a00fe174c94e7e12fd7841d1ad,
   0x67e972fdcdf41ab5ed8393284aae6906a682f63995f65eb471f87f55c71736e7,
   0x224fb6ad78d91f539e305b31be0dcf2f3ca958a21fa4b124da21f7ad7da939e8]]

end Lumix.Poseidon255
