import SourceEdit.Unicode.Intervals

/-!
# Scripts

The script of each character, and the wider relation "is used with the script", which differs
from it for characters that several scripts share.
-/

namespace SourceEdit.Unicode

def scriptTable : List (List String × List String) := [
  (["adlm", "adlam"],
    ["d6iAcLEJEB"]),
  (["aghb", "caucasianalbanian"],
    ["cbjQbTLA"]),
  (["ahom"],
    ["cfyA0COEW"]),
  (["arab", "arabic"],
    ["bqAEBFBNBCB5BJLZBdLBbBcQbPhQ4BBFcKB2b8sQdSQlKCcPCbVHAbAPdQEBeGd7D4cDCbXDbxyADB0BBBACABJB",
     "DBABAGAEABABABCBBBACABABABABABBBACDBGBDBDBABJBQFCBEBQbUB"]),
  (["armi", "imperialaramaic"],
    ["cccAVBI"]),
  (["armn", "armenian"],
    ["bjRbFCbRCCb9mDE"]),
  (["avst", "avestan"],
    ["ccyAbVDG"]),
  (["bali", "balinese"],
    ["gyAcMBbR"]),
  (["bamu", "bamum"],
    ["bjvAcXbqiIrY"]),
  (["bass", "bassavah"],
    ["c6wQ3CF"]),
  (["batk", "batak"],
    ["g+AbTID"]),
  (["beng", "bengali"],
    ["cmADBHCBCVBGBADDCICBCDIAEBBECY"]),
  (["bhks", "bhaiksuki"],
    ["chaAIBbMBNK2"]),
  (["bopo", "bopomofo"],
    ["xKBlqZbKdQ5"]),
  (["brah", "brahmi"],
    ["ceaAcNEbDJA"]),
  (["brai", "braille"],
    ["kaAh5"]),
  (["bugi", "buginese"],
    ["gqA1CB"]),
  (["buhd", "buhid"],
    ["f6AT"]),
  (["cakm", "chakma"],
    ["ceiAbUBR"]),
  (["cans", "canadianaboriginal"],
    ["faAt5rQcFcan0P"]),
  (["cari", "carian"],
    ["cavAbQ"]),
  (["cham"],
    ["bkqAbWJNCJCD"]),
  (["cher", "cherokee"],
    ["e9AcVCFbf7ScP"]),
  (["chrs", "chorasmian"],
    ["cd9Q1"]),
  (["copt", "coptic", "qaac"],
    ["/CNkeQdTFG"]),
  (["cpmn", "cyprominoan"],
    ["cl8QdC"]),
  (["cprt", "cypriot"],
    ["ccaAFCABbLBBDACA"]),
  (["cyrl", "cyrillic"],
    ["baAeECfIf6QKfAAcMAedH5+cAc5v8OBbyqAb3bBA"]),
  (["deva", "devanagari"],
    ["ciAcQEOCZbh7A58qAJ"]),
  (["diak", "divesakuru"],
    ["cgiAGCACHBBB3BBCLJJ"]),
  (["dogr", "dogra"],
    ["cgaAb1"]),
  (["dsrt", "deseret"],
    ["cbaAcP"]),
  (["dupl", "duployan"],
    ["dpaAdKFMDIHJCD"]),
  (["egyp", "egyptianhieroglyphs"],
    ["cmaAbcVKd80"]),
  (["elba", "elbasan"],
    ["cbiAbH"]),
  (["elym", "elymaic"],
    ["cd/AW"]),
  (["ethi", "ethiopic"],
    ["eqAcIBDCGBABDCbIBDCbABDCGBABDCOBbYBDCcCC5DZgpGWJGBGBGBGBGBGBGBG/jCFCFCFJGBGcpfRGBDBBBO"]),
  (["gara", "garay"],
    ["cdkAbFD2IB"]),
  (["geor", "georgian"],
    ["efAbFBAFACbKBDc8QbKCCecAbFBAFA"]),
  (["glag", "glagolitic"],
    ["laAc5dm9AGBQCGBBBE"]),
  (["gong", "gunjalagondi"],
    ["chlAFBBBbEBBBFHJ"]),
  (["gonm", "masaramgondi"],
    ["chiAGBBBbLDABBBIIJ"]),
  (["goth", "gothic"],
    ["cazQ0"]),
  (["gran", "grantha"],
    ["ceyADBHCBCVBGBBBECICBCCCAGAFGCGDE"]),
  (["grek", "greek"],
    ["7QDBCCDBAEABABCBABTBb4OPgjGEbSEEEcUAkAVCFCbFCFCHBABABAB4CbUBOBNCFBSCCBIjHAbcr4Avo0cORAbu",
     "c5cF"]),
  (["gujr", "gujarati"],
    ["cuBCBIBCBVBGBBBECJBCBCCAPDCLHG"]),
  (["gukh", "gurungkhema"],
    ["cyiAbZ"]),
  (["guru", "gurmukhi"],
    ["cqBCBFEBCVBGBBBBBBCABEEBCCDAHDBAHQ"]),
  (["hang", "hangul"],
    ["eiAh5hrOBiBc3dR4cB49xB2uDk9DMWEbQj9E4DFCFCFCC"]),
  (["hani", "han"],
    ["luAZBcYMgVbPABAZIOD+Egn5cAup5wiAlNCdJ9iIBMBbeaObjw5bAebZGg3CfuBOhjQPtNcnCq3bpCe6KFec5"]),
  (["hano", "hanunoo"],
    ["fzAU"]),
  (["hatr", "hatran"],
    ["cchASBBFE"]),
  (["hebr", "hebrew"],
    ["bmRbWI0EFb9jIZBEBABBBBBJ"]),
  (["hira", "hiragana"],
    ["mcBcVGCc/7Bi4SA3CqfNA"]),
  (["hluw", "anatolianhieroglyphs"],
    ["craAsG"]),
  (["hmng", "pahawhhmong"],
    ["c6yAcFKJBGBUFS"]),
  (["hmnp", "nyiakengpuachuehmong"],
    ["dyiAbMDNCJEB"]),
  (["hung", "oldhungarian"],
    ["cdeAbSNbSHF"]),
  (["ital", "olditalic"],
    ["cayAbDJC"]),
  (["java", "javanese"],
    ["bkmAcNCJEB"]),
  (["kali", "kayahli"],
    ["bkiAbNBA"]),
  (["kana", "katakana"],
    ["mfBcZCChQPgQbOBcXbtaOJBbMbmcSDBGBBBAi5CbSAOD"]),
  (["kawi"],
    ["chyAQBbID2"]),
  (["khar", "kharoshthi"],
    ["ccqADBBFHBCB2CCEJHI"]),
  (["khmr", "khmer"],
    ["f8Ac3CJGJpG5"]),
  (["khoj", "khojki"],
    ["ceqARBbO"]),
  (["kits", "khitansmallscript"],
    ["c7/EAgy1oVbJA"]),
  (["knda", "kannada"],
    ["deAMBCBWBJBECIBCBDHBGBBDCJBC"]),
  (["krai", "kiratrai"],
    ["c7kAbZ"]),
  (["kthi", "kaithi"],
    ["ceeAcCKA"]),
  (["lana", "taitham"],
    ["grAb4B2CKGJGN"]),
  (["laoo", "lao"],
    ["duBBBABEBXBABWCEBABGBJCD"]),
  (["latn", "latin"],
    ["cBZGZbPAPAFWB4BoAbHEgq1bFGbQFDFMBcFcBh5lRANAQMeNBGA1ARbIcwX5+vCdFDcCCBBABHVNzQbKBIBDt8WG",
     "ba0ZGZcbFFBbJBIbv6F4GF"]),
  (["lepc", "lepcha"],
    ["haAbXDODC"]),
  (["limb", "limbu"],
    ["giA4BLELEADL"]),
  (["lina", "lineara"],
    ["cbqAjWJVKH"]),
  (["linb", "linearb"],
    ["caaALBZBSBBBOCNbCd0"]),
  (["lisu"],
    ["bjgQbP+vQA"]),
  (["lyci", "lycian"],
    ["cauA2"]),
  (["lydi", "lydian"],
    ["ccjAZFA"]),
  (["mahj", "mahajani"],
    ["cekQbG"]),
  (["maka", "makasar"],
    ["chxAY"]),
  (["mand", "mandaic"],
    ["ccA1CA"]),
  (["mani", "manichaean"],
    ["ccwAbGEL"]),
  (["marc", "marchen"],
    ["chdQ5CVBN"]),
  (["medf", "medefaidrin"],
    ["c7sAc0"]),
  (["mend", "mendekikakui"],
    ["d6aAgECP"]),
  (["merc", "meroiticcursive"],
    ["ccnAXETCbN"]),
  (["mero", "meroitichieroglyphs"],
    ["ccmA5"]),
  (["mlym", "malayalam"],
    ["diAMBCBbSBCBFEPCZ"]),
  (["modi"],
    ["cfqAcELJ"]),
  (["mong", "mongolian"],
    ["gaABCABTGcYHbKb/nVM"]),
  (["mroo", "mro"],
    ["c6sA4BJEB"]),
  (["mtei", "meeteimayek"],
    ["bkxAWgJbNCJ"]),
  (["mult", "multani"],
    ["ceuAGBABDBOBK"]),
  (["mymr", "myanmar"],
    ["eaAe5bgkA4dB57cQT"]),
  (["nagm", "nagmundari"],
    ["dzgQbJ"]),
  (["nand", "nandinagari"],
    ["cgnAHCbNCK"]),
  (["narb", "oldnortharabian"],
    ["ccuA5"]),
  (["nbat", "nabataean"],
    ["cceA4II"]),
  (["newa"],
    ["cfaAc1BE"]),
  (["nkoo", "nko"],
    ["b+Ab0CC"]),
  (["nshu", "nushu"],
    ["c7/BAqmOmL"]),
  (["ogam", "ogham"],
    ["fuA2"]),
  (["olck", "olchiki"],
    ["hcQbP"]),
  (["onao", "olonal"],
    ["dzoQbKEA"]),
  (["orkh", "oldturkic"],
    ["cdaAcI"]),
  (["orya", "oriya"],
    ["cyBCBHCBCVBGBBBECICBCCHCEBBECR"]),
  (["osge", "osage"],
    ["cbfQbDEbD"]),
  (["osma", "osmanya"],
    ["cbeA3CJ"]),
  (["ougr", "olduyghur"],
    ["cd7QZ"]),
  (["palm", "palmyrene"],
    ["ccdA5"]),
  (["pauc", "paucinhau"],
    ["cgwAbY"]),
  (["perm", "oldpermic"],
    ["ca6QbK"]),
  (["phag", "phagspa"],
    ["bkcAbX"]),
  (["phli", "inscriptionalpahlavi"],
    ["cc7ASFH"]),
  (["phlp", "psalterpahlavi"],
    ["cc8ARHDMG"]),
  (["phnx", "phoenician"],
    ["cciA1DA"]),
  (["plrd", "miao"],
    ["c7yAcKEbYHQ"]),
  (["prti", "inscriptionalparthian"],
    ["cc6AVCH"]),
  (["rjng", "rejang"],
    ["bkjQbDLA"]),
  (["rohg", "hanifirohingya"],
    ["cdiAbHIJ"]),
  (["runr", "runic"],
    ["fvAcKDK"]),
  (["samr", "samaritan"],
    ["caAbNCO"]),
  (["sarb", "oldsoutharabian"],
    ["cctA5"]),
  (["saur", "saurashtra"],
    ["bkeAcFIL"]),
  (["sgnw", "signwriting"],
    ["dwaAuLPEBO"]),
  (["shaw", "shavian"],
    ["cbcQbP"]),
  (["shrd", "sharada"],
    ["cemAc5"]),
  (["sidd", "siddham"],
    ["cfmAbVCbF"]),
  (["sind", "khudawadi"],
    ["cevQb0FJ"]),
  (["sinh", "sinhala"],
    ["dmBCBRDXBIBACGDAEFBABHGJCCca/MT"]),
  (["sogd", "sogdian"],
    ["cdzQbJ"]),
  (["sogo", "oldsogdian"],
    ["cdyAbH"]),
  (["sora", "sorasompeng"],
    ["cegQYHJ"]),
  (["soyo", "soyombo"],
    ["cgsQcS"]),
  (["sund", "sundanese"],
    ["g8Ab5iAH"]),
  (["sunu", "sunuwar"],
    ["cg+AbBOJ"]),
  (["sylo", "sylotinagri"],
    ["bkaAbM"]),
  (["syrc", "syriac"],
    ["byANBb1CCiQK"]),
  (["tagb", "tagbanwa"],
    ["f7AMBCBB"]),
  (["takr", "takri"],
    ["cfuAbZGJ"]),
  (["tale", "taile"],
    ["gkQ3CE"]),
  (["talu", "newtailue"],
    ["gmAbLEZGKDB"]),
  (["taml", "tamil"],
    ["c8CBBFDCBDDBBABBDBDCDLEEDCBDCAGAOUce+FbRNA"]),
  (["tang", "tangut"],
    ["c7/AA5f/XIx5qAI"]),
  (["tavt", "taiviet"],
    ["bkuAcCYE"]),
  (["telu", "telugu"],
    ["daAMBCBWBPCIBCBDHBBCCACDCJHI"]),
  (["tfng", "tifinagh"],
    ["ljQbXHBOA"]),
  (["tglg", "tagalog"],
    ["fyAVJA"]),
  (["thaa", "thaana"],
    ["b8AbR"]),
  (["thai"],
    ["dqBbZF1"]),
  (["tibt", "tibetan"],
    ["dyAcHBbDEbGBbDBOBGEB"]),
  (["tirh", "tirhuta"],
    ["cfeAcHIJ"]),
  (["tnsa", "tangsa"],
    ["c6tQcOBJ"]),
  (["todr", "todhri"],
    ["cboAbT"]),
  (["toto"],
    ["dyuQ4"]),
  (["tutg", "tulutigalari"],
    ["ce8AJBACABbFBJBACABDBJBBIB"]),
  (["ugar", "ugaritic"],
    ["ca8A3BA"]),
  (["vaii", "vai"],
    ["bjiAjL"]),
  (["vith", "vithkuqi"],
    ["cblQKBOBGBBBKBOBGBB"]),
  (["wara", "warangciti"],
    ["cgfAcSMA"]),
  (["wcho", "wancho"],
    ["dywAbZFA"]),
  (["xpeo", "oldpersian"],
    ["ca9AbDEN"]),
  (["xsux", "cuneiform"],
    ["ciaA8ZdGdOBELgD"]),
  (["yezi", "yezidi"],
    ["cduAbJBCCB"]),
  (["yiii", "yi"],
    ["biaAbeMDbW"]),
  (["zanb", "zanabazarsquare"],
    ["cgqAcH"]),
  (["zinh", "inherited", "qaai"],
    ["yAdPiVBoEK0AxADek14qBCBMBGEAGADBgGb5qMBgCbAdzZDdLBbtlFPQN+PAhCAec0Abo+EbNCWrACRHCG4Dyl6S",
     "hP"]),
  (["zyyy", "common"],
    ["AcA0F0bOBOBEXA5AoBbGFECTdUAJAGABAt3AGAOADAbAAe2AqEAeBBbgZAmVDjCAbpPCcHBgLBBAbgNANAHDBFBC",
     "CAyFLCcWBKDKBORbAb5bFBCCFB0BQbJCEuZWKV85iAtTC5BdIqAc3mSUBABYPHEDc1BDAc0BeTPbAbFJAbQb55cQ",
     "bPAcYfHgoAb5wiAbBdGCfFJhUAfAAmLAOBuoSBgQJWbCBSBDeTAB50F0KKAbNBcAGBGKEiCCEbMDIcQMbTbMhE0b",
     "onEDd62hZGnTe2dTb2hVKbGCb3DQIBH3Eb2gVTMTMcWJYeHcUBcGBBCACBCDBLBABGBcABDCHBGB1BDBEBADGBkT",
     "CjDCbRfdRcDcMb2wCbLEdDMOCOBOBbEKfNbYZBBNbLEIHBOFe0+XEQDMDdWEc4GLEAPLEbXIJGbHI3CLEBb4kTMN",
     "CMDJFbXHOCKGIHeSBdFybaHA4c5"])]

/-- The scripts used with characters that belong elsewhere, and all characters used with them. -/
def scriptUseTable : List (List String × List String) := [
  (["adlm", "adlam"],
    ["bq5AbAAgqOAdpRAdov4cLEJEB"]),
  (["aghb", "caucasianalbanian"],
    ["yEAbMAbMAcaoRbTLA"]),
  (["arab", "arabic"],
    ["bqAEBgWBbBcQbPhQ4BBFcKB2f6PAdpRAbtiOdSQn2CbVHAbAPdQEBeG/D1c7E4cDCbXDbxyADB0BBBACABJBDBAB",
     "AGAEABABABCBBBACABABABABABBBACDBGBDBDBABJBQFCBEBQbUB"]),
  (["armn", "armenian"],
    ["yIArIbFCbRCCb9mDE"]),
  (["avst", "avestan"],
    ["fXAllYBbxgObVDG"]),
  (["beng", "bengali"],
    ["v2AbuUBRB0DBHCBCVBGBADDCICBCDIAEBBECYewRABACBBAIAIACAEACCbc/ZA"]),
  (["bopo", "bopomofo"],
    ["wHABCNAQBliVCEJBMKDCAGAgDAJbKdQ5bteFBi0E"]),
  (["bugi", "buginese"],
    ["gqA1CBbd9PA"]),
  (["buhd", "buhid"],
    ["fzVBJT"]),
  (["cakm", "chakma"],
    ["cpGJbsQJcafWbUBR"]),
  (["cari", "carian"],
    ["fXAh9CACAdoTAbvdObQ"]),
  (["cher", "cherokee"],
    ["yACBAGBWBLBedOcVCFbf7ScP"]),
  (["copt", "coptic", "qaac"],
    ["fXAsIADBBAdMBdMNkeQdTFGiXAbvgI1"]),
  (["cpmn", "cyprominoan"],
    ["caiABluOdC"]),
  (["cprt", "cypriot"],
    ["caiACEbMDIbwAFCABbLBBDACA"]),
  (["cyrl", "cyrillic"],
    ["v2AcDCBABABACAFAhOjPf6QKfAAcMAd5Ad/H5cDA9/2c5v8OBbyqAb3bBA"]),
  (["deva", "devanagari"],
    ["v2AbsDcSCbKe6QbGBB/WAbbz5JfG58qAJ"]),
  (["dogr", "dogra"],
    ["clELbhwAJ7+Gb1"]),
  (["dupl", "duployan"],
    ["fXAsPBBAYBkyXAddoDdKFMDIHJCH"]),
  (["elba", "elbasan"],
    ["fXAsNAcap0bH"]),
  (["ethi", "ethiopic"],
    ["yOAdxRcIBDCGBABDCbIBDCbABDCGBABDCOBbYBDCcCC5DZgpGWJGBGBGBGBGBGBGBG/jCFCFCFJGBGcpfRGBDBBB",
     "O"]),
  (["gara", "garay"],
    ["bqMAOADAcbzAbFD2IB"]),
  (["geor", "georgian"],
    ["fXAbgRAcyWbFBAFACbPc8QbKCC80AdfFbFBAFAiDA"]),
  (["glag", "glagolitic"],
    ["fXAsLABAl4ACAiBAc7RAd64Ac9Fc5pDA+bLAcomQGBQCGBBBE"]),
  (["gong", "gunjalagondi"],
    ["fXAcfMBce/0FBBBbEBBBFHJ"]),
  (["gonm", "masaramgondi"],
    ["clEBce80GBBBbLDABBBIIJ"]),
  (["goth", "gothic"],
    ["fXAsMBCAbIAb//40"]),
  (["gran", "grantha"],
    ["ckRBRBuANeg2ABB4CDB/WAb8qPDBHCBCVBGBBBEBJCBCCCAGAFGCGDEdc1BBA"]),
  (["grek", "greek"],
    ["fXAsIBCABABAKAbOACAbKHCDBAEABABCBABTBb4OPgjGEbSEEEcUCj4VCFCbFCFCHBABABAB4CbUBOBNCFBSCCBI",
     "c4AgIAbcr4Avo0cORAbuc5cF"]),
  (["gujr", "gujarati"],
    ["ckRBRBi1CBIBCBVBGBBBECJBCBCCAPDCLHGbhjQJ"]),
  (["gukh", "gurungkhema"],
    ["clFAcv80bZ"]),
  (["guru", "gurmukhi"],
    ["ckRBRBe1CBFEBCVBGBBBBBBCABEEBCCDAHDBAHQbhnZJ"]),
  (["hang", "hangul"],
    ["eiAh5hqBCEJBMOCGAgDAbVc3dR4cB49xB2uDk9DMWEbQjsJBi0Eb04DFCFCFCC"]),
  (["hani", "han"],
    ["fXAloIZBcYMgV0PBCBMBMBMCAGIf1AeUPbAbFJAbQbHbYbQPLbTAcYYKEdA4Bgn5cAup5byAHupYlNCdJ7LBi0E8",
     "d2BMBy7ORhw4BdnObjw5bAebZGg3CfuBOhjQPtNcnCq3bpCe6KFec5"]),
  (["hano", "hanunoo"],
    ["fzAW"]),
  (["hebr", "hebrew"],
    ["yHBuIbWI0EFb9jIZBEBABBBBBJ"]),
  (["hira", "hiragana"],
    ["maBCEJBMQFBAEBDcVCHc0BbtkIBi0EKAbNBbmdBi4SA3CqfNA"]),
  (["hung", "oldhungarian"],
    ["ic0ACAdoTAPAbxr4bSNbSHF"]),
  (["java", "javanese"],
    ["bkmAcNBKEB"]),
  (["kali", "kayahli"],
    ["bkiAbP"]),
  (["kana", "katakana"],
    ["yFA3Alg3CEJBMQFBAEBc1DDc5hQPgQbOBcXbsxNBi0b4bmcQDBGBBBAi5CbSAOD"]),
  (["khoj", "khojki"],
    ["cxGJbhkAJ6oGRBbO"]),
  (["knda", "kannada"],
    ["ckRBRBy0MBCBWBJBECIBCBDHBGBBDCJBCd+2ABBGAXABAbcz1F"]),
  (["kthi", "kaithi"],
    ["clGJjgBA+p4J6cGcCKA"]),
  (["latn", "latin"],
    ["cBZGZbPAMACAFWB4BoADAKABCBAJABAGE1OBBBAPCHBBBbGAFAEMiVBbgKBb9IAdaEbFGbQFDFMBcFbZAHh5jPAc",
     "BANAQMcTAbZBGA1ARbIcwX5mXA+hIH0dFDcCCBBABHVNjOAqBbKBIBDt8WGba0ZGZcbFFBbJBIbv6F4GF"]),
  (["limb", "limbu"],
    ["clFAd804BLELEADL"]),
  (["lina", "lineara"],
    ["caiHbMbgMjWJVKH"]),
  (["linb", "linearb"],
    ["caaALBZBSBBBOCNbCd0FCEbMDI"]),
  (["lisu"],
    ["v2AQAlj2B9gEbP+vQA"]),
  (["lyci", "lycian"],
    ["ic0AbyrF2"]),
  (["lydi", "lydian"],
    ["fXAllZAbwxOZFA"]),
  (["mahj", "mahajani"],
    ["fXAcfMLbhwAJ6iWbG"]),
  (["mand", "mandaic"],
    ["bsAAp51CA"]),
  (["mani", "manichaean"],
    ["bsAAcbd5bGEL"]),
  (["mero", "meroitichieroglyphs"],
    ["ic3Ab6jC5"]),
  (["mlym", "malayalam"],
    ["ckRBRB80MBCBbSBCBFEPCZd60AXAbcz3C"]),
  (["modi"],
    ["bkbQJ7oGcELJ"]),
  (["mong", "mongolian"],
    ["gaAZGcYHbKb8EAd+RBFDbzsUM"]),
  (["mult", "multani"],
    ["ctGJccaQGBABDBOBK"]),
  (["mymr", "myanmar"],
    ["eaAe5bgeOAfR4dB57cQT"]),
  (["nand", "nandinagari"],
    ["ckRASB8AJd/ZAIAHAbczVF8lKHCbNCK"]),
  (["newa"],
    ["ckRBe8CABBJAGABABAb9ySc1BE"]),
  (["nkoo", "nko"],
    ["bqMAOADAnAb0CCb9j4B"]),
  (["onao", "olonal"],
    ["clEBdxdKbKEA"]),
  (["orkh", "oldturkic"],
    ["ic0AdoVAbxoPcI"]),
  (["orya", "oriya"],
    ["ckRBRBm1CBHCBCVBGBBBECICBCCHCEBBECRelCAXA"]),
  (["osge", "osage"],
    ["yBACAGAcMAcakXbDEbD"]),
  (["ougr", "olduyghur"],
    ["bsAAcbfRAbd3Z"]),
  (["perm", "oldpermic"],
    ["fXAsIAFCKAlPAb/wMbK"]),
  (["phag", "phagspa"],
    ["gaCBBAcbJAd+SA+b3bX"]),
  (["phlp", "psalterpahlavi"],
    ["bsAAcbj5RHDMG"]),
  (["rohg", "hanifirohingya"],
    ["bqMAOADAbAAeTAcbrLbHIJ"]),
  (["runr", "runic"],
    ["fvAcY"]),
  (["samr", "samaritan"],
    ["caAbNCOjpSA"]),
  (["shaw", "shavian"],
    ["fXAca8YbP"]),
  (["shrd", "sharada"],
    ["ckRAe8FABACBCAJACAbc6CFCA6kHc5"]),
  (["sind", "khudawadi"],
    ["clEBbhwKJ6tWb0FJ"]),
  (["sinh", "sinhala"],
    ["clEBba1CBRDXBIBACGDAEFBABHGJCCdx3Ab9hOT"]),
  (["sogd", "sogdian"],
    ["bsAAcchPbJ"]),
  (["sunu", "sunuwar"],
    ["yABBAJACA2ADAcgeObBOJ"]),
  (["sylo", "sylotinagri"],
    ["clEBeAJbhqQbM"]),
  (["syrc", "syriac"],
    ["yDBCBBAYCHBBBw0AOBCAbAAKK0AePNBb1CCiQKfmNABA"]),
  (["tagb", "tagbanwa"],
    ["fzVBbJMBCBB"]),
  (["takr", "takri"],
    ["clEBbhwKJ7sGbZGJ"]),
  (["tale", "taile"],
    ["yABFBDAdjTJciG3CE"]),
  (["taml", "tamil"],
    ["ckRBRBq2BBFDCBDDBBABBDBDCDLEEDCBDCAGAOUeg5AbdaYA6qNABAbXBdeDbRNA"]),
  (["tang", "tangut"],
    ["l/QPpPAcppQA5f/XIx5qAI"]),
  (["telu", "telugu"],
    ["ckRBRBu0MBCBWBPCIBCBDHBBCCACDCJHIecVBBABAXA"]),
  (["tfng", "tifinagh"],
    ["yCABABDZAkqMbXHBOA"]),
  (["tglg", "tagalog"],
    ["fyAVJAVB"]),
  (["thaa", "thaana"],
    ["bqMAOBCAcAJiWbRb9sAAKA"]),
  (["thai"],
    ["v2A0AbLAbNAcwPbZF1"]),
  (["tibt", "tibetan"],
    ["dyAcHBbDEbGBbDBOBGEBibND"]),
  (["tirh", "tirhuta"],
    ["ckRBRBe7PAMAPAbcz3J7cGcHIJ"]),
  (["todr", "todhri"],
    ["yBACACAJABAcKAcatBbT"]),
  (["toto"],
    ["v2Adx+T4"]),
  (["tutg", "tulutigalari"],
    ["dhGJeaCABAbcz1Ff1A6uOJBACABbFBJBACABDBJBBIB"]),
  (["yezi", "yezidi"],
    ["bqMAOADAcAJccaWbJBCCB"]),
  (["yiii", "yi"],
    ["maBBFJCHg5A7yEbeMDbWwu0E"]),
  (["zinh", "inherited", "qaai"],
    ["yPACABODGCACPBBBRBEBDbpQBek14xTbVBABEqMBgC5bxiQPQN+PAbtiCbNCWrACRHCG4Dyl6ShP"]),
  (["zyyy", "common"],
    ["AcA0F0bOBLBBBEXA5AoBCBJBADABIBABFFECTd4AGABAt3AgXAqEAbk2AmVDebHLCbAB4BJBBBGBKDKBORbAb5bF",
     "BCCFB0BQbJCEuZWKV85iAtTC5BdIqAWBXCJBDBABZnCADANANAVAqRX5AbROMDfBJFc55AgoAb5wiIZdGC+QAOBu",
     "vEJWUCLBSBDeTAB50F0Fd5GBGKEmSMbTbMbsqDhZGnTe2dTb2hVKbGCb3DQIBH3Eb2gVTMTMcW1GeHcUBcGBBCAC",
     "BCDBLBABGBcABDCHBGB1BDBEBADGBkTCjDCbRfdRcDcMb2wCbLEdDMOCOBOBbEKfNbYZBBNbLEIXFe0+XEQDMDdW",
     "Ec4GLEAPLEbXIJGbHI3CLEBb4kTMNCMDJFbXHOCKGIHeSBdFybaHA4c5"])]

def script? (name : String) : Option CodeSet :=
  (scriptTable.find? (·.1.contains name)).map (CodeSet.ofLines ·.2)

def scriptUse? (name : String) : Option CodeSet :=
  match scriptUseTable.find? (·.1.contains name) with
  | some row => some (CodeSet.ofLines row.2)
  | none => script? name

end SourceEdit.Unicode
