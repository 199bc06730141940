/-!
# The instruction names

The catalog lists the mnemonics in the order of the instruction numbers that decoders use, so an
instruction's number is its position.  Number 0 stands for an unknown instruction.
-/

namespace X86Listing.Mnemonic

/-- Mnemonic names by instruction number. -/
def catalog : List String := [
    "invalid", "aaa", "aad", "aam", "aas", "fabs", "adc", "adcx", "add", "addpd", "addps",
    "addsd", "addss", "addsubpd", "addsubps", "fadd", "fiadd", "adox", "aesdeclast", "aesdec",
    "aesenclast", "aesenc", "aesimc", "aeskeygenassist", "and", "andn", "andnpd", "andnps",
    "andpd", "andps", "arpl", "bextr", "blcfill", "blci", "blcic", "blcmsk", "blcs", "blendpd",
    "blendps", "blendvpd", "blendvps", "blsfill", "blsi", "blsic", "blsmsk", "blsr", "bndcl",
    "bndcn", "bndcu", "bndldx", "bndmk", "bndmov", "bndstx", "bound", "bsf", "bsr", "bswap", "bt",
    "btc", "btr", "bts", "bzhi", "call", "cbw", "cdq", "cdqe", "fchs", "clac", "clc", "cld",
    "cldemote", "clflush", "clflushopt", "clgi", "cli", "clrssbsy", "clts", "clwb", "clzero",
    "cmc", "cmova", "cmovae", "cmovb", "cmovbe", "fcmovbe", "fcmovb", "cmove", "fcmove", "cmovg",
    "cmovge", "cmovl", "cmovle", "fcmovnbe", "fcmovnb", "cmovne", "fcmovne", "cmovno", "cmovnp",
    "fcmovnu", "fcmovnp", "cmovns", "cmovo", "cmovp", "fcmovu", "cmovs", "cmp", "cmppd", "cmpps",
    "cmpsb", "cmpsd", "cmpsq", "cmpss", "cmpsw", "cmpxchg16b", "cmpxchg", "cmpxchg8b", "comisd",
    "comiss", "fcomp", "fcompi", "fcomi", "fcom", "fcos", "cpuid", "cqo", "crc32", "cvtdq2pd",
    "cvtdq2ps", "cvtpd2dq", "cvtpd2ps", "cvtps2dq", "cvtps2pd", "cvtsd2si", "cvtsd2ss",
    "cvtsi2sd", "cvtsi2ss", "cvtss2sd", "cvtss2si", "cvttpd2dq", "cvttps2dq", "cvttsd2si",
    "cvttss2si", "cwd", "cwde", "daa", "das", "data16", "dec", "div", "divpd", "divps", "fdivr",
    "fidivr", "fdivrp", "divsd", "divss", "fdiv", "fidiv", "fdivp", "dppd", "dpps", "encls",
    "enclu", "enclv", "endbr32", "endbr64", "enter", "extractps", "extrq", "f2xm1", "lcall",
    "ljmp", "jmp", "fbld", "fbstp", "fcompp", "fdecstp", "fdisi8087_nop", "femms", "feni8087_nop",
    "ffree", "ffreep", "ficom", "ficomp", "fincstp", "fldcw", "fldenv", "fldl2e", "fldl2t",
    "fldlg2", "fldln2", "fldpi", "fnclex", "fninit", "fnop", "fnstcw", "fnstsw", "fpatan",
    "fstpnce", "fprem", "fprem1", "fptan", "frndint", "frstor", "fnsave", "fscale", "fsetpm",
    "fsincos", "fnstenv", "fxam", "fxrstor", "fxrstor64", "fxsave", "fxsave64", "fxtract",
    "fyl2x", "fyl2xp1", "getsec", "gf2p8affineinvqb", "gf2p8affineqb", "gf2p8mulb", "haddpd",
    "haddps", "hlt", "hsubpd", "hsubps", "idiv", "fild", "imul", "in", "inc", "incsspd",
    "incsspq", "insb", "insertps", "insertq", "insd", "insw", "int", "int1", "int3", "into",
    "invd", "invept", "invlpg", "invlpga", "invpcid", "invvpid", "iret", "iretd", "iretq",
    "fisttp", "fist", "fistp", "jae", "ja", "jbe", "jb", "jcxz", "jecxz", "je", "jge", "jg",
    "jle", "jl", "jne", "jno", "jnp", "jns", "jo", "jp", "jrcxz", "js", "kaddb", "kaddd", "kaddq",
    "kaddw", "kandb", "kandd", "kandnb", "kandnd", "kandnq", "kandnw", "kandq", "kandw", "kmovb",
    "kmovd", "kmovq", "kmovw", "knotb", "knotd", "knotq", "knotw", "korb", "kord", "korq",
    "kortestb", "kortestd", "kortestq", "kortestw", "korw", "kshiftlb", "kshiftld", "kshiftlq",
    "kshiftlw", "kshiftrb", "kshiftrd", "kshiftrq", "kshiftrw", "ktestb", "ktestd", "ktestq",
    "ktestw", "kunpckbw", "kunpckdq", "kunpckwd", "kxnorb", "kxnord", "kxnorq", "kxnorw", "kxorb",
    "kxord", "kxorq", "kxorw", "lahf", "lar", "lddqu", "ldmxcsr", "lds", "fldz", "fld1", "fld",
    "lea", "leave", "les", "lfence", "lfs", "lgdt", "lgs", "lidt", "lldt", "llwpcb", "lmsw",
    "lock", "lodsb", "lodsd", "lodsq", "lodsw", "loop", "loope", "loopne", "retf", "retfq", "lsl",
    "lss", "ltr", "lwpins", "lwpval", "lzcnt", "maskmovdqu", "maxpd", "maxps", "maxsd", "maxss",
    "mfence", "minpd", "minps", "minsd", "minss", "cvtpd2pi", "cvtpi2pd", "cvtpi2ps", "cvtps2pi",
    "cvttpd2pi", "cvttps2pi", "emms", "maskmovq", "movd", "movq", "movdq2q", "movntq", "movq2dq",
    "pabsb", "pabsd", "pabsw", "packssdw", "packsswb", "packuswb", "paddb", "paddd", "paddq",
    "paddsb", "paddsw", "paddusb", "paddusw", "paddw", "palignr", "pandn", "pand", "pavgb",
    "pavgw", "pcmpeqb", "pcmpeqd", "pcmpeqw", "pcmpgtb", "pcmpgtd", "pcmpgtw", "pextrw", "phaddd",
    "phaddsw", "phaddw", "phsubd", "phsubsw", "phsubw", "pinsrw", "pmaddubsw", "pmaddwd",
    "pmaxsw", "pmaxub", "pminsw", "pminub", "pmovmskb", "pmulhrsw", "pmulhuw", "pmulhw", "pmullw",
    "pmuludq", "por", "psadbw", "pshufb", "pshufw", "psignb", "psignd", "psignw", "pslld",
    "psllq", "psllw", "psrad", "psraw", "psrld", "psrlq", "psrlw", "psubb", "psubd", "psubq",
    "psubsb", "psubsw", "psubusb", "psubusw", "psubw", "punpckhbw", "punpckhdq", "punpckhwd",
    "punpcklbw", "punpckldq", "punpcklwd", "pxor", "monitorx", "monitor", "montmul", "mov",
    "movabs", "movapd", "movaps", "movbe", "movddup", "movdir64b", "movdiri", "movdqa", "movdqu",
    "movhlps", "movhpd", "movhps", "movlhps", "movlpd", "movlps", "movmskpd", "movmskps",
    "movntdqa", "movntdq", "movnti", "movntpd", "movntps", "movntsd", "movntss", "movsb", "movsd",
    "movshdup", "movsldup", "movsq", "movss", "movsw", "movsx", "movsxd", "movupd", "movups",
    "movzx", "mpsadbw", "mul", "mulpd", "mulps", "mulsd", "mulss", "mulx", "fmul", "fimul",
    "fmulp", "mwaitx", "mwait", "neg", "nop", "not", "or", "orpd", "orps", "out", "outsb",
    "outsd", "outsw", "packusdw", "pause", "pavgusb", "pblendvb", "pblendw", "pclmulqdq",
    "pcmpeqq", "pcmpestri", "pcmpestrm", "pcmpgtq", "pcmpistri", "pcmpistrm", "pconfig", "pdep",
    "pext", "pextrb", "pextrd", "pextrq", "pf2id", "pf2iw", "pfacc", "pfadd", "pfcmpeq",
    "pfcmpge", "pfcmpgt", "pfmax", "pfmin", "pfmul", "pfnacc", "pfpnacc", "pfrcpit1", "pfrcpit2",
    "pfrcp", "pfrsqit1", "pfrsqrt", "pfsubr", "pfsub", "phminposuw", "pi2fd", "pi2fw", "pinsrb",
    "pinsrd", "pinsrq", "pmaxsb", "pmaxsd", "pmaxud", "pmaxuw", "pminsb", "pminsd", "pminud",
    "pminuw", "pmovsxbd", "pmovsxbq", "pmovsxbw", "pmovsxdq", "pmovsxwd", "pmovsxwq", "pmovzxbd",
    "pmovzxbq", "pmovzxbw", "pmovzxdq", "pmovzxwd", "pmovzxwq", "pmuldq", "pmulhrw", "pmulld",
    "pop", "popaw", "popal", "popcnt", "popf", "popfd", "popfq", "prefetch", "prefetchnta",
    "prefetcht0", "prefetcht1", "prefetcht2", "prefetchw", "prefetchwt1", "pshufd", "pshufhw",
    "pshuflw", "pslldq", "psrldq", "pswapd", "ptest", "ptwrite", "punpckhqdq", "punpcklqdq",
    "push", "pushaw", "pushal", "pushf", "pushfd", "pushfq", "rcl", "rcpps", "rcpss", "rcr",
    "rdfsbase", "rdgsbase", "rdmsr", "rdpid", "rdpkru", "rdpmc", "rdrand", "rdseed", "rdsspd",
    "rdsspq", "rdtsc", "rdtscp", "repne", "rep", "ret", "rex64", "rol", "ror", "rorx", "roundpd",
    "roundps", "roundsd", "roundss", "rsm", "rsqrtps", "rsqrtss", "rstorssp", "sahf", "sal",
    "salc", "sar", "sarx", "saveprevssp", "sbb", "scasb", "scasd", "scasq", "scasw", "setae",
    "seta", "setbe", "setb", "sete", "setge", "setg", "setle", "setl", "setne", "setno", "setnp",
    "setns", "seto", "setp", "setssbsy", "sets", "sfence", "sgdt", "sha1msg1", "sha1msg2",
    "sha1nexte", "sha1rnds4", "sha256msg1", "sha256msg2", "sha256rnds2", "shl", "shld", "shlx",
    "shr", "shrd", "shrx", "shufpd", "shufps", "sidt", "fsin", "skinit", "sldt", "slwpcb", "smsw",
    "sqrtpd", "sqrtps", "sqrtsd", "sqrtss", "fsqrt", "stac", "stc", "std", "stgi", "sti",
    "stmxcsr", "stosb", "stosd", "stosq", "stosw", "str", "fst", "fstp", "sub", "subpd", "subps",
    "fsubr", "fisubr", "fsubrp", "subsd", "subss", "fsub", "fisub", "fsubp", "swapgs", "syscall",
    "sysenter", "sysexit", "sysexitq", "sysret", "sysretq", "t1mskc", "test", "tpause", "ftst",
    "tzcnt", "tzmsk", "ucomisd", "ucomiss", "fucompi", "fucomi", "fucompp", "fucomp", "fucom",
    "ud0", "ud1", "ud2", "umonitor", "umwait", "unpckhpd", "unpckhps", "unpcklpd", "unpcklps",
    "v4fmaddps", "v4fmaddss", "v4fnmaddps", "v4fnmaddss", "vaddpd", "vaddps", "vaddsd", "vaddss",
    "vaddsubpd", "vaddsubps", "vaesdeclast", "vaesdec", "vaesenclast", "vaesenc", "vaesimc",
    "vaeskeygenassist", "valignd", "valignq", "vandnpd", "vandnps", "vandpd", "vandps",
    "vblendmpd", "vblendmps", "vblendpd", "vblendps", "vblendvpd", "vblendvps", "vbroadcastf128",
    "vbroadcastf32x2", "vbroadcastf32x4", "vbroadcastf32x8", "vbroadcastf64x2", "vbroadcastf64x4",
    "vbroadcasti128", "vbroadcasti32x2", "vbroadcasti32x4", "vbroadcasti32x8", "vbroadcasti64x2",
    "vbroadcasti64x4", "vbroadcastsd", "vbroadcastss", "vcmp", "vcmppd", "vcmpps", "vcmpsd",
    "vcmpss", "vcomisd", "vcomiss", "vcompresspd", "vcompressps", "vcvtdq2pd", "vcvtdq2ps",
    "vcvtpd2dq", "vcvtpd2ps", "vcvtpd2qq", "vcvtpd2udq", "vcvtpd2uqq", "vcvtph2ps", "vcvtps2dq",
    "vcvtps2pd", "vcvtps2ph", "vcvtps2qq", "vcvtps2udq", "vcvtps2uqq", "vcvtqq2pd", "vcvtqq2ps",
    "vcvtsd2si", "vcvtsd2ss", "vcvtsd2usi", "vcvtsi2sd", "vcvtsi2ss", "vcvtss2sd", "vcvtss2si",
    "vcvtss2usi", "vcvttpd2dq", "vcvttpd2qq", "vcvttpd2udq", "vcvttpd2uqq", "vcvttps2dq",
    "vcvttps2qq", "vcvttps2udq", "vcvttps2uqq", "vcvttsd2si", "vcvttsd2usi", "vcvttss2si",
    "vcvttss2usi", "vcvtudq2pd", "vcvtudq2ps", "vcvtuqq2pd", "vcvtuqq2ps", "vcvtusi2sd",
    "vcvtusi2ss", "vdbpsadbw", "vdivpd", "vdivps", "vdivsd", "vdivss", "vdppd", "vdpps", "verr",
    "verw", "vexp2pd", "vexp2ps", "vexpandpd", "vexpandps", "vextractf128", "vextractf32x4",
    "vextractf32x8", "vextractf64x2", "vextractf64x4", "vextracti128", "vextracti32x4",
    "vextracti32x8", "vextracti64x2", "vextracti64x4", "vextractps", "vfixupimmpd", "vfixupimmps",
    "vfixupimmsd", "vfixupimmss", "vfmadd132pd", "vfmadd132ps", "vfmadd132sd", "vfmadd132ss",
    "vfmadd213pd", "vfmadd213ps", "vfmadd213sd", "vfmadd213ss", "vfmadd231pd", "vfmadd231ps",
    "vfmadd231sd", "vfmadd231ss", "vfmaddpd", "vfmaddps", "vfmaddsd", "vfmaddss",
    "vfmaddsub132pd", "vfmaddsub132ps", "vfmaddsub213pd", "vfmaddsub213ps", "vfmaddsub231pd",
    "vfmaddsub231ps", "vfmaddsubpd", "vfmaddsubps", "vfmsub132pd", "vfmsub132ps", "vfmsub132sd",
    "vfmsub132ss", "vfmsub213pd", "vfmsub213ps", "vfmsub213sd", "vfmsub213ss", "vfmsub231pd",
    "vfmsub231ps", "vfmsub231sd", "vfmsub231ss", "vfmsubadd132pd", "vfmsubadd132ps",
    "vfmsubadd213pd", "vfmsubadd213ps", "vfmsubadd231pd", "vfmsubadd231ps", "vfmsubaddpd",
    "vfmsubaddps", "vfmsubpd", "vfmsubps", "vfmsubsd", "vfmsubss", "vfnmadd132pd", "vfnmadd132ps",
    "vfnmadd132sd", "vfnmadd132ss", "vfnmadd213pd", "vfnmadd213ps", "vfnmadd213sd",
    "vfnmadd213ss", "vfnmadd231pd", "vfnmadd231ps", "vfnmadd231sd", "vfnmadd231ss", "vfnmaddpd",
    "vfnmaddps", "vfnmaddsd", "vfnmaddss", "vfnmsub132pd", "vfnmsub132ps", "vfnmsub132sd",
    "vfnmsub132ss", "vfnmsub213pd", "vfnmsub213ps", "vfnmsub213sd", "vfnmsub213ss",
    "vfnmsub231pd", "vfnmsub231ps", "vfnmsub231sd", "vfnmsub231ss", "vfnmsubpd", "vfnmsubps",
    "vfnmsubsd", "vfnmsubss", "vfpclasspd", "vfpclassps", "vfpclasssd", "vfpclassss", "vfrczpd",
    "vfrczps", "vfrczsd", "vfrczss", "vgatherdpd", "vgatherdps", "vgatherpf0dpd", "vgatherpf0dps",
    "vgatherpf0qpd", "vgatherpf0qps", "vgatherpf1dpd", "vgatherpf1dps", "vgatherpf1qpd",
    "vgatherpf1qps", "vgatherqpd", "vgatherqps", "vgetexppd", "vgetexpps", "vgetexpsd",
    "vgetexpss", "vgetmantpd", "vgetmantps", "vgetmantsd", "vgetmantss", "vgf2p8affineinvqb",
    "vgf2p8affineqb", "vgf2p8mulb", "vhaddpd", "vhaddps", "vhsubpd", "vhsubps", "vinsertf128",
    "vinsertf32x4", "vinsertf32x8", "vinsertf64x2", "vinsertf64x4", "vinserti128", "vinserti32x4",
    "vinserti32x8", "vinserti64x2", "vinserti64x4", "vinsertps", "vlddqu", "vldmxcsr",
    "vmaskmovdqu", "vmaskmovpd", "vmaskmovps", "vmaxpd", "vmaxps", "vmaxsd", "vmaxss", "vmcall",
    "vmclear", "vmfunc", "vminpd", "vminps", "vminsd", "vminss", "vmlaunch", "vmload", "vmmcall",
    "vmovq", "vmovapd", "vmovaps", "vmovddup", "vmovd", "vmovdqa32", "vmovdqa64", "vmovdqa",
    "vmovdqu16", "vmovdqu32", "vmovdqu64", "vmovdqu8", "vmovdqu", "vmovhlps", "vmovhpd",
    "vmovhps", "vmovlhps", "vmovlpd", "vmovlps", "vmovmskpd", "vmovmskps", "vmovntdqa",
    "vmovntdq", "vmovntpd", "vmovntps", "vmovsd", "vmovshdup", "vmovsldup", "vmovss", "vmovupd",
    "vmovups", "vmpsadbw", "vmptrld", "vmptrst", "vmread", "vmresume", "vmrun", "vmsave",
    "vmulpd", "vmulps", "vmulsd", "vmulss", "vmwrite", "vmxoff", "vmxon", "vorpd", "vorps",
    "vp4dpwssds", "vp4dpwssd", "vpabsb", "vpabsd", "vpabsq", "vpabsw", "vpackssdw", "vpacksswb",
    "vpackusdw", "vpackuswb", "vpaddb", "vpaddd", "vpaddq", "vpaddsb", "vpaddsw", "vpaddusb",
    "vpaddusw", "vpaddw", "vpalignr", "vpandd", "vpandnd", "vpandnq", "vpandn", "vpandq", "vpand",
    "vpavgb", "vpavgw", "vpblendd", "vpblendmb", "vpblendmd", "vpblendmq", "vpblendmw",
    "vpblendvb", "vpblendw", "vpbroadcastb", "vpbroadcastd", "vpbroadcastmb2q", "vpbroadcastmw2d",
    "vpbroadcastq", "vpbroadcastw", "vpclmulqdq", "vpcmov", "vpcmp", "vpcmpb", "vpcmpd",
    "vpcmpeqb", "vpcmpeqd", "vpcmpeqq", "vpcmpeqw", "vpcmpestri", "vpcmpestrm", "vpcmpgtb",
    "vpcmpgtd", "vpcmpgtq", "vpcmpgtw", "vpcmpistri", "vpcmpistrm", "vpcmpq", "vpcmpub",
    "vpcmpud", "vpcmpuq", "vpcmpuw", "vpcmpw", "vpcom", "vpcomb", "vpcomd", "vpcompressb",
    "vpcompressd", "vpcompressq", "vpcompressw", "vpcomq", "vpcomub", "vpcomud", "vpcomuq",
    "vpcomuw", "vpcomw", "vpconflictd", "vpconflictq", "vpdpbusds", "vpdpbusd", "vpdpwssds",
    "vpdpwssd", "vperm2f128", "vperm2i128", "vpermb", "vpermd", "vpermi2b", "vpermi2d",
    "vpermi2pd", "vpermi2ps", "vpermi2q", "vpermi2w", "vpermil2pd", "vpermilpd", "vpermil2ps",
    "vpermilps", "vpermpd", "vpermps", "vpermq", "vpermt2b", "vpermt2d", "vpermt2pd", "vpermt2ps",
    "vpermt2q", "vpermt2w", "vpermw", "vpexpandb", "vpexpandd", "vpexpandq", "vpexpandw",
    "vpextrb", "vpextrd", "vpextrq", "vpextrw", "vpgatherdd", "vpgatherdq", "vpgatherqd",
    "vpgatherqq", "vphaddbd", "vphaddbq", "vphaddbw", "vphadddq", "vphaddd", "vphaddsw",
    "vphaddubd", "vphaddubq", "vphaddubw", "vphaddudq", "vphadduwd", "vphadduwq", "vphaddwd",
    "vphaddwq", "vphaddw", "vphminposuw", "vphsubbw", "vphsubdq", "vphsubd", "vphsubsw",
    "vphsubwd", "vphsubw", "vpinsrb", "vpinsrd", "vpinsrq", "vpinsrw", "vplzcntd", "vplzcntq",
    "vpmacsdd", "vpmacsdqh", "vpmacsdql", "vpmacssdd", "vpmacssdqh", "vpmacssdql", "vpmacsswd",
    "vpmacssww", "vpmacswd", "vpmacsww", "vpmadcsswd", "vpmadcswd", "vpmadd52huq", "vpmadd52luq",
    "vpmaddubsw", "vpmaddwd", "vpmaskmovd", "vpmaskmovq", "vpmaxsb", "vpmaxsd", "vpmaxsq",
    "vpmaxsw", "vpmaxub", "vpmaxud", "vpmaxuq", "vpmaxuw", "vpminsb", "vpminsd", "vpminsq",
    "vpminsw", "vpminub", "vpminud", "vpminuq", "vpminuw", "vpmovb2m", "vpmovd2m", "vpmovdb",
    "vpmovdw", "vpmovm2b", "vpmovm2d", "vpmovm2q", "vpmovm2w", "vpmovmskb", "vpmovq2m", "vpmovqb",
    "vpmovqd", "vpmovqw", "vpmovsdb", "vpmovsdw", "vpmovsqb", "vpmovsqd", "vpmovsqw", "vpmovswb",
    "vpmovsxbd", "vpmovsxbq", "vpmovsxbw", "vpmovsxdq", "vpmovsxwd", "vpmovsxwq", "vpmovusdb",
    "vpmovusdw", "vpmovusqb", "vpmovusqd", "vpmovusqw", "vpmovuswb", "vpmovw2m", "vpmovwb",
    "vpmovzxbd", "vpmovzxbq", "vpmovzxbw", "vpmovzxdq", "vpmovzxwd", "vpmovzxwq", "vpmuldq",
    "vpmulhrsw", "vpmulhuw", "vpmulhw", "vpmulld", "vpmullq", "vpmullw", "vpmultishiftqb",
    "vpmuludq", "vpopcntb", "vpopcntd", "vpopcntq", "vpopcntw", "vpord", "vporq", "vpor",
    "vpperm", "vprold", "vprolq", "vprolvd", "vprolvq", "vprord", "vprorq", "vprorvd", "vprorvq",
    "vprotb", "vprotd", "vprotq", "vprotw", "vpsadbw", "vpscatterdd", "vpscatterdq",
    "vpscatterqd", "vpscatterqq", "vpshab", "vpshad", "vpshaq", "vpshaw", "vpshlb", "vpshldd",
    "vpshldq", "vpshldvd", "vpshldvq", "vpshldvw", "vpshldw", "vpshld", "vpshlq", "vpshlw",
    "vpshrdd", "vpshrdq", "vpshrdvd", "vpshrdvq", "vpshrdvw", "vpshrdw", "vpshufbitqmb",
    "vpshufb", "vpshufd", "vpshufhw", "vpshuflw", "vpsignb", "vpsignd", "vpsignw", "vpslldq",
    "vpslld", "vpsllq", "vpsllvd", "vpsllvq", "vpsllvw", "vpsllw", "vpsrad", "vpsraq", "vpsravd",
    "vpsravq", "vpsravw", "vpsraw", "vpsrldq", "vpsrld", "vpsrlq", "vpsrlvd", "vpsrlvq",
    "vpsrlvw", "vpsrlw", "vpsubb", "vpsubd", "vpsubq", "vpsubsb", "vpsubsw", "vpsubusb",
    "vpsubusw", "vpsubw", "vpternlogd", "vpternlogq", "vptestmb", "vptestmd", "vptestmq",
    "vptestmw", "vptestnmb", "vptestnmd", "vptestnmq", "vptestnmw", "vptest", "vpunpckhbw",
    "vpunpckhdq", "vpunpckhqdq", "vpunpckhwd", "vpunpcklbw", "vpunpckldq", "vpunpcklqdq",
    "vpunpcklwd", "vpxord", "vpxorq", "vpxor", "vrangepd", "vrangeps", "vrangesd", "vrangess",
    "vrcp14pd", "vrcp14ps", "vrcp14sd", "vrcp14ss", "vrcp28pd", "vrcp28ps", "vrcp28sd",
    "vrcp28ss", "vrcpps", "vrcpss", "vreducepd", "vreduceps", "vreducesd", "vreducess",
    "vrndscalepd", "vrndscaleps", "vrndscalesd", "vrndscaless", "vroundpd", "vroundps",
    "vroundsd", "vroundss", "vrsqrt14pd", "vrsqrt14ps", "vrsqrt14sd", "vrsqrt14ss", "vrsqrt28pd",
    "vrsqrt28ps", "vrsqrt28sd", "vrsqrt28ss", "vrsqrtps", "vrsqrtss", "vscalefpd", "vscalefps",
    "vscalefsd", "vscalefss", "vscatterdpd", "vscatterdps", "vscatterpf0dpd", "vscatterpf0dps",
    "vscatterpf0qpd", "vscatterpf0qps", "vscatterpf1dpd", "vscatterpf1dps", "vscatterpf1qpd",
    "vscatterpf1qps", "vscatterqpd", "vscatterqps", "vshuff32x4", "vshuff64x2", "vshufi32x4",
    "vshufi64x2", "vshufpd", "vshufps", "vsqrtpd", "vsqrtps", "vsqrtsd", "vsqrtss", "vstmxcsr",
    "vsubpd", "vsubps", "vsubsd", "vsubss", "vtestpd", "vtestps", "vucomisd", "vucomiss",
    "vunpckhpd", "vunpckhps", "vunpcklpd", "vunpcklps", "vxorpd", "vxorps", "vzeroall",
    "vzeroupper", "wait", "wbinvd", "wbnoinvd", "wrfsbase", "wrgsbase", "wrmsr", "wrpkru",
    "wrssd", "wrssq", "wrussd", "wrussq", "xabort", "xacquire", "xadd", "xbegin", "xchg", "fxch",
    "xcryptcbc", "xcryptcfb", "xcryptctr", "xcryptecb", "xcryptofb", "xend", "xgetbv", "xlatb",
    "xor", "xorpd", "xorps", "xrelease", "xrstor", "xrstor64", "xrstors", "xrstors64", "xsave",
    "xsave64", "xsavec", "xsavec64", "xsaveopt", "xsaveopt64", "xsaves", "xsaves64", "xsetbv",
    "xsha1", "xsha256", "xstore", "xtest"]

/-- There are 1523 instructions, and the place of the unknown one. -/
theorem catalog_length : catalog.length = 1524 := by decide +kernel

end X86Listing.Mnemonic
