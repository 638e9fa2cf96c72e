import CodeGraph.Text.CodeTable

/-!
# Scripts

The script of each character in the sixteenth edition of the character database, and the scripts
that a character is used in where these are others than its own. A script is named by four letters.
-/

namespace CodeGraph.Text

/-- A script, by the four letters that stand for it. -/
structure Script where
  letters : String
  deriving DecidableEq, Repr, Inhabited

namespace Script

/-- The script that four letters name. -/
def ofLetters? (s : String) : Option Script :=
  if s.isEmpty then none else some ⟨s⟩

/-- The scripts whose letters follow one another. -/
def manyOfLetters? (s : String) : Option (List Script) :=
  let rec split : List Char → List Script
    | a :: b :: c :: d :: rest => ⟨String.ofList [a, b, c, d]⟩ :: split rest
    | _ => []
  some (split s.toList)

private def table : CodeTable Script := .ofText ofLetters? (String.join [
  "0-40Zyyy 41-5aLatn 5b-60Zyyy 61-7aLatn 7b-a9Zyyy aaLatn ab-b9Zyyy baLatn bb-bfZyyy c0-d6Latn ",
  "d7Zyyy d8-f6Latn f7Zyyy f8-2b8Latn 2b9-2dfZyyy 2e0-2e4Latn 2e5-2e9Zyyy 2ea-2ebBopo ",
  "2ec-2ffZyyy 300-36fZinh 370-373Grek 374Zyyy 375-377Grek 37a-37dGrek 37eZyyy 37fGrek 384Grek ",
  "385Zyyy 386Grek 387Zyyy 388-38aGrek 38cGrek 38e-3a1Grek 3a3-3e1Grek 3e2-3efCopt 3f0-3ffGrek ",
  "400-484Cyrl 485-486Zinh 487-52fCyrl 531-556Armn 559-58aArmn 58d-58fArmn 591-5c7Hebr ",
  "5d0-5eaHebr 5ef-5f4Hebr 600-604Arab 605Zyyy 606-60bArab 60cZyyy 60d-61aArab 61bZyyy ",
  "61c-61eArab 61fZyyy 620-63fArab 640Zyyy 641-64aArab 64b-655Zinh 656-66fArab 670Zinh ",
  "671-6dcArab 6ddZyyy 6de-6ffArab 700-70dSyrc 70f-74aSyrc 74d-74fSyrc 750-77fArab 780-7b1Thaa ",
  "7c0-7faNkoo 7fd-7ffNkoo 800-82dSamr 830-83eSamr 840-85bMand 85eMand 860-86aSyrc 870-88eArab ",
  "890-891Arab 897-8e1Arab 8e2Zyyy 8e3-8ffArab 900-950Deva 951-954Zinh 955-963Deva 964-965Zyyy ",
  "966-97fDeva 980-983Beng 985-98cBeng 98f-990Beng 993-9a8Beng 9aa-9b0Beng 9b2Beng 9b6-9b9Beng ",
  "9bc-9c4Beng 9c7-9c8Beng 9cb-9ceBeng 9d7Beng 9dc-9ddBeng 9df-9e3Beng 9e6-9feBeng a01-a03Guru ",
  "a05-a0aGuru a0f-a10Guru a13-a28Guru a2a-a30Guru a32-a33Guru a35-a36Guru a38-a39Guru a3cGuru ",
  "a3e-a42Guru a47-a48Guru a4b-a4dGuru a51Guru a59-a5cGuru a5eGuru a66-a76Guru a81-a83Gujr ",
  "a85-a8dGujr a8f-a91Gujr a93-aa8Gujr aaa-ab0Gujr ab2-ab3Gujr ab5-ab9Gujr abc-ac5Gujr ",
  "ac7-ac9Gujr acb-acdGujr ad0Gujr ae0-ae3Gujr ae6-af1Gujr af9-affGujr b01-b03Orya b05-b0cOrya ",
  "b0f-b10Orya b13-b28Orya b2a-b30Orya b32-b33Orya b35-b39Orya b3c-b44Orya b47-b48Orya ",
  "b4b-b4dOrya b55-b57Orya b5c-b5dOrya b5f-b63Orya b66-b77Orya b82-b83Taml b85-b8aTaml ",
  "b8e-b90Taml b92-b95Taml b99-b9aTaml b9cTaml b9e-b9fTaml ba3-ba4Taml ba8-baaTaml bae-bb9Taml ",
  "bbe-bc2Taml bc6-bc8Taml bca-bcdTaml bd0Taml bd7Taml be6-bfaTaml c00-c0cTelu c0e-c10Telu ",
  "c12-c28Telu c2a-c39Telu c3c-c44Telu c46-c48Telu c4a-c4dTelu c55-c56Telu c58-c5aTelu c5dTelu ",
  "c60-c63Telu c66-c6fTelu c77-c7fTelu c80-c8cKnda c8e-c90Knda c92-ca8Knda caa-cb3Knda ",
  "cb5-cb9Knda cbc-cc4Knda cc6-cc8Knda cca-ccdKnda cd5-cd6Knda cdd-cdeKnda ce0-ce3Knda ",
  "ce6-cefKnda cf1-cf3Knda d00-d0cMlym d0e-d10Mlym d12-d44Mlym d46-d48Mlym d4a-d4fMlym ",
  "d54-d63Mlym d66-d7fMlym d81-d83Sinh d85-d96Sinh d9a-db1Sinh db3-dbbSinh dbdSinh dc0-dc6Sinh ",
  "dcaSinh dcf-dd4Sinh dd6Sinh dd8-ddfSinh de6-defSinh df2-df4Sinh e01-e3aThai e3fZyyy ",
  "e40-e5bThai e81-e82Laoo e84Laoo e86-e8aLaoo e8c-ea3Laoo ea5Laoo ea7-ebdLaoo ec0-ec4Laoo ",
  "ec6Laoo ec8-eceLaoo ed0-ed9Laoo edc-edfLaoo f00-f47Tibt f49-f6cTibt f71-f97Tibt f99-fbcTibt ",
  "fbe-fccTibt fce-fd4Tibt fd5-fd8Zyyy fd9-fdaTibt 1000-109fMymr 10a0-10c5Geor 10c7Geor ",
  "10cdGeor 10d0-10faGeor 10fbZyyy 10fc-10ffGeor 1100-11ffHang 1200-1248Ethi 124a-124dEthi ",
  "1250-1256Ethi 1258Ethi 125a-125dEthi 1260-1288Ethi 128a-128dEthi 1290-12b0Ethi 12b2-12b5Ethi ",
  "12b8-12beEthi 12c0Ethi 12c2-12c5Ethi 12c8-12d6Ethi 12d8-1310Ethi 1312-1315Ethi 1318-135aEthi ",
  "135d-137cEthi 1380-1399Ethi 13a0-13f5Cher 13f8-13fdCher 1400-167fCans 1680-169cOgam ",
  "16a0-16eaRunr 16eb-16edZyyy 16ee-16f8Runr 1700-1715Tglg 171fTglg 1720-1734Hano 1735-1736Zyyy ",
  "1740-1753Buhd 1760-176cTagb 176e-1770Tagb 1772-1773Tagb 1780-17ddKhmr 17e0-17e9Khmr ",
  "17f0-17f9Khmr 1800-1801Mong 1802-1803Zyyy 1804Mong 1805Zyyy 1806-1819Mong 1820-1878Mong ",
  "1880-18aaMong 18b0-18f5Cans 1900-191eLimb 1920-192bLimb 1930-193bLimb 1940Limb 1944-194fLimb ",
  "1950-196dTale 1970-1974Tale 1980-19abTalu 19b0-19c9Talu 19d0-19daTalu 19de-19dfTalu ",
  "19e0-19ffKhmr 1a00-1a1bBugi 1a1e-1a1fBugi 1a20-1a5eLana 1a60-1a7cLana 1a7f-1a89Lana ",
  "1a90-1a99Lana 1aa0-1aadLana 1ab0-1aceZinh 1b00-1b4cBali 1b4e-1b7fBali 1b80-1bbfSund ",
  "1bc0-1bf3Batk 1bfc-1bffBatk 1c00-1c37Lepc 1c3b-1c49Lepc 1c4d-1c4fLepc 1c50-1c7fOlck ",
  "1c80-1c8aCyrl 1c90-1cbaGeor 1cbd-1cbfGeor 1cc0-1cc7Sund 1cd0-1cd2Zinh 1cd3Zyyy 1cd4-1ce0Zinh ",
  "1ce1Zyyy 1ce2-1ce8Zinh 1ce9-1cecZyyy 1cedZinh 1cee-1cf3Zyyy 1cf4Zinh 1cf5-1cf7Zyyy ",
  "1cf8-1cf9Zinh 1cfaZyyy 1d00-1d25Latn 1d26-1d2aGrek 1d2bCyrl 1d2c-1d5cLatn 1d5d-1d61Grek ",
  "1d62-1d65Latn 1d66-1d6aGrek 1d6b-1d77Latn 1d78Cyrl 1d79-1dbeLatn 1dbfGrek 1dc0-1dffZinh ",
  "1e00-1effLatn 1f00-1f15Grek 1f18-1f1dGrek 1f20-1f45Grek 1f48-1f4dGrek 1f50-1f57Grek 1f59Grek ",
  "1f5bGrek 1f5dGrek 1f5f-1f7dGrek 1f80-1fb4Grek 1fb6-1fc4Grek 1fc6-1fd3Grek 1fd6-1fdbGrek ",
  "1fdd-1fefGrek 1ff2-1ff4Grek 1ff6-1ffeGrek 2000-200bZyyy 200c-200dZinh 200e-2064Zyyy ",
  "2066-2070Zyyy 2071Latn 2074-207eZyyy 207fLatn 2080-208eZyyy 2090-209cLatn 20a0-20c0Zyyy ",
  "20d0-20f0Zinh 2100-2125Zyyy 2126Grek 2127-2129Zyyy 212a-212bLatn 212c-2131Zyyy 2132Latn ",
  "2133-214dZyyy 214eLatn 214f-215fZyyy 2160-2188Latn 2189-218bZyyy 2190-2429Zyyy 2440-244aZyyy ",
  "2460-27ffZyyy 2800-28ffBrai 2900-2b73Zyyy 2b76-2b95Zyyy 2b97-2bffZyyy 2c00-2c5fGlag ",
  "2c60-2c7fLatn 2c80-2cf3Copt 2cf9-2cffCopt 2d00-2d25Geor 2d27Geor 2d2dGeor 2d30-2d67Tfng ",
  "2d6f-2d70Tfng 2d7fTfng 2d80-2d96Ethi 2da0-2da6Ethi 2da8-2daeEthi 2db0-2db6Ethi 2db8-2dbeEthi ",
  "2dc0-2dc6Ethi 2dc8-2dceEthi 2dd0-2dd6Ethi 2dd8-2ddeEthi 2de0-2dffCyrl 2e00-2e5dZyyy ",
  "2e80-2e99Hani 2e9b-2ef3Hani 2f00-2fd5Hani 2ff0-3004Zyyy 3005Hani 3006Zyyy 3007Hani ",
  "3008-3020Zyyy 3021-3029Hani 302a-302dZinh 302e-302fHang 3030-3037Zyyy 3038-303bHani ",
  "303c-303fZyyy 3041-3096Hira 3099-309aZinh 309b-309cZyyy 309d-309fHira 30a0Zyyy 30a1-30faKana ",
  "30fb-30fcZyyy 30fd-30ffKana 3105-312fBopo 3131-318eHang 3190-319fZyyy 31a0-31bfBopo ",
  "31c0-31e5Zyyy 31efZyyy 31f0-31ffKana 3200-321eHang 3220-325fZyyy 3260-327eHang 327f-32cfZyyy ",
  "32d0-32feKana 32ffZyyy 3300-3357Kana 3358-33ffZyyy 3400-4dbfHani 4dc0-4dffZyyy 4e00-9fffHani ",
  "a000-a48cYiii a490-a4c6Yiii a4d0-a4ffLisu a500-a62bVaii a640-a69fCyrl a6a0-a6f7Bamu ",
  "a700-a721Zyyy a722-a787Latn a788-a78aZyyy a78b-a7cdLatn a7d0-a7d1Latn a7d3Latn a7d5-a7dcLatn ",
  "a7f2-a7ffLatn a800-a82cSylo a830-a839Zyyy a840-a877Phag a880-a8c5Saur a8ce-a8d9Saur ",
  "a8e0-a8ffDeva a900-a92dKali a92eZyyy a92fKali a930-a953Rjng a95fRjng a960-a97cHang ",
  "a980-a9cdJava a9cfZyyy a9d0-a9d9Java a9de-a9dfJava a9e0-a9feMymr aa00-aa36Cham aa40-aa4dCham ",
  "aa50-aa59Cham aa5c-aa5fCham aa60-aa7fMymr aa80-aac2Tavt aadb-aadfTavt aae0-aaf6Mtei ",
  "ab01-ab06Ethi ab09-ab0eEthi ab11-ab16Ethi ab20-ab26Ethi ab28-ab2eEthi ab30-ab5aLatn ab5bZyyy ",
  "ab5c-ab64Latn ab65Grek ab66-ab69Latn ab6a-ab6bZyyy ab70-abbfCher abc0-abedMtei abf0-abf9Mtei ",
  "ac00-d7a3Hang d7b0-d7c6Hang d7cb-d7fbHang f900-fa6dHani fa70-fad9Hani fb00-fb06Latn ",
  "fb13-fb17Armn fb1d-fb36Hebr fb38-fb3cHebr fb3eHebr fb40-fb41Hebr fb43-fb44Hebr fb46-fb4fHebr ",
  "fb50-fbc2Arab fbd3-fd3dArab fd3e-fd3fZyyy fd40-fd8fArab fd92-fdc7Arab fdcfArab fdf0-fdffArab ",
  "fe00-fe0fZinh fe10-fe19Zyyy fe20-fe2dZinh fe2e-fe2fCyrl fe30-fe52Zyyy fe54-fe66Zyyy ",
  "fe68-fe6bZyyy fe70-fe74Arab fe76-fefcArab feffZyyy ff01-ff20Zyyy ff21-ff3aLatn ff3b-ff40Zyyy ",
  "ff41-ff5aLatn ff5b-ff65Zyyy ff66-ff6fKana ff70Zyyy ff71-ff9dKana ff9e-ff9fZyyy ffa0-ffbeHang ",
  "ffc2-ffc7Hang ffca-ffcfHang ffd2-ffd7Hang ffda-ffdcHang ffe0-ffe6Zyyy ffe8-ffeeZyyy ",
  "fff9-fffdZyyy 10000-1000bLinb 1000d-10026Linb 10028-1003aLinb 1003c-1003dLinb ",
  "1003f-1004dLinb 10050-1005dLinb 10080-100faLinb 10100-10102Zyyy 10107-10133Zyyy ",
  "10137-1013fZyyy 10140-1018eGrek 10190-1019cZyyy 101a0Grek 101d0-101fcZyyy 101fdZinh ",
  "10280-1029cLyci 102a0-102d0Cari 102e0Zinh 102e1-102fbZyyy 10300-10323Ital 1032d-1032fItal ",
  "10330-1034aGoth 10350-1037aPerm 10380-1039dUgar 1039fUgar 103a0-103c3Xpeo 103c8-103d5Xpeo ",
  "10400-1044fDsrt 10450-1047fShaw 10480-1049dOsma 104a0-104a9Osma 104b0-104d3Osge ",
  "104d8-104fbOsge 10500-10527Elba 10530-10563Aghb 1056fAghb 10570-1057aVith 1057c-1058aVith ",
  "1058c-10592Vith 10594-10595Vith 10597-105a1Vith 105a3-105b1Vith 105b3-105b9Vith ",
  "105bb-105bcVith 105c0-105f3Todr 10600-10736Lina 10740-10755Lina 10760-10767Lina ",
  "10780-10785Latn 10787-107b0Latn 107b2-107baLatn 10800-10805Cprt 10808Cprt 1080a-10835Cprt ",
  "10837-10838Cprt 1083cCprt 1083fCprt 10840-10855Armi 10857-1085fArmi 10860-1087fPalm ",
  "10880-1089eNbat 108a7-108afNbat 108e0-108f2Hatr 108f4-108f5Hatr 108fb-108ffHatr ",
  "10900-1091bPhnx 1091fPhnx 10920-10939Lydi 1093fLydi 10980-1099fMero 109a0-109b7Merc ",
  "109bc-109cfMerc 109d2-109ffMerc 10a00-10a03Khar 10a05-10a06Khar 10a0c-10a13Khar ",
  "10a15-10a17Khar 10a19-10a35Khar 10a38-10a3aKhar 10a3f-10a48Khar 10a50-10a58Khar ",
  "10a60-10a7fSarb 10a80-10a9fNarb 10ac0-10ae6Mani 10aeb-10af6Mani 10b00-10b35Avst ",
  "10b39-10b3fAvst 10b40-10b55Prti 10b58-10b5fPrti 10b60-10b72Phli 10b78-10b7fPhli ",
  "10b80-10b91Phlp 10b99-10b9cPhlp 10ba9-10bafPhlp 10c00-10c48Orkh 10c80-10cb2Hung ",
  "10cc0-10cf2Hung 10cfa-10cffHung 10d00-10d27Rohg 10d30-10d39Rohg 10d40-10d65Gara ",
  "10d69-10d85Gara 10d8e-10d8fGara 10e60-10e7eArab 10e80-10ea9Yezi 10eab-10eadYezi ",
  "10eb0-10eb1Yezi 10ec2-10ec4Arab 10efc-10effArab 10f00-10f27Sogo 10f30-10f59Sogd ",
  "10f70-10f89Ougr 10fb0-10fcbChrs 10fe0-10ff6Elym 11000-1104dBrah 11052-11075Brah 1107fBrah ",
  "11080-110c2Kthi 110cdKthi 110d0-110e8Sora 110f0-110f9Sora 11100-11134Cakm 11136-11147Cakm ",
  "11150-11176Mahj 11180-111dfShrd 111e1-111f4Sinh 11200-11211Khoj 11213-11241Khoj ",
  "11280-11286Mult 11288Mult 1128a-1128dMult 1128f-1129dMult 1129f-112a9Mult 112b0-112eaSind ",
  "112f0-112f9Sind 11300-11303Gran 11305-1130cGran 1130f-11310Gran 11313-11328Gran ",
  "1132a-11330Gran 11332-11333Gran 11335-11339Gran 1133bZinh 1133c-11344Gran 11347-11348Gran ",
  "1134b-1134dGran 11350Gran 11357Gran 1135d-11363Gran 11366-1136cGran 11370-11374Gran ",
  "11380-11389Tutg 1138bTutg 1138eTutg 11390-113b5Tutg 113b7-113c0Tutg 113c2Tutg 113c5Tutg ",
  "113c7-113caTutg 113cc-113d5Tutg 113d7-113d8Tutg 113e1-113e2Tutg 11400-1145bNewa ",
  "1145d-11461Newa 11480-114c7Tirh 114d0-114d9Tirh 11580-115b5Sidd 115b8-115ddSidd ",
  "11600-11644Modi 11650-11659Modi 11660-1166cMong 11680-116b9Takr 116c0-116c9Takr ",
  "116d0-116e3Mymr 11700-1171aAhom 1171d-1172bAhom 11730-11746Ahom 11800-1183bDogr ",
  "118a0-118f2Wara 118ffWara 11900-11906Diak 11909Diak 1190c-11913Diak 11915-11916Diak ",
  "11918-11935Diak 11937-11938Diak 1193b-11946Diak 11950-11959Diak 119a0-119a7Nand ",
  "119aa-119d7Nand 119da-119e4Nand 11a00-11a47Zanb 11a50-11aa2Soyo 11ab0-11abfCans ",
  "11ac0-11af8Pauc 11b00-11b09Deva 11bc0-11be1Sunu 11bf0-11bf9Sunu 11c00-11c08Bhks ",
  "11c0a-11c36Bhks 11c38-11c45Bhks 11c50-11c6cBhks 11c70-11c8fMarc 11c92-11ca7Marc ",
  "11ca9-11cb6Marc 11d00-11d06Gonm 11d08-11d09Gonm 11d0b-11d36Gonm 11d3aGonm 11d3c-11d3dGonm ",
  "11d3f-11d47Gonm 11d50-11d59Gonm 11d60-11d65Gong 11d67-11d68Gong 11d6a-11d8eGong ",
  "11d90-11d91Gong 11d93-11d98Gong 11da0-11da9Gong 11ee0-11ef8Maka 11f00-11f10Kawi ",
  "11f12-11f3aKawi 11f3e-11f5aKawi 11fb0Lisu 11fc0-11ff1Taml 11fffTaml 12000-12399Xsux ",
  "12400-1246eXsux 12470-12474Xsux 12480-12543Xsux 12f90-12ff2Cpmn 13000-13455Egyp ",
  "13460-143faEgyp 14400-14646Hluw 16100-16139Gukh 16800-16a38Bamu 16a40-16a5eMroo ",
  "16a60-16a69Mroo 16a6e-16a6fMroo 16a70-16abeTnsa 16ac0-16ac9Tnsa 16ad0-16aedBass ",
  "16af0-16af5Bass 16b00-16b45Hmng 16b50-16b59Hmng 16b5b-16b61Hmng 16b63-16b77Hmng ",
  "16b7d-16b8fHmng 16d40-16d79Krai 16e40-16e9aMedf 16f00-16f4aPlrd 16f4f-16f87Plrd ",
  "16f8f-16f9fPlrd 16fe0Tang 16fe1Nshu 16fe2-16fe3Hani 16fe4Kits 16ff0-16ff1Hani ",
  "17000-187f7Tang 18800-18affTang 18b00-18cd5Kits 18cffKits 18d00-18d08Tang 1aff0-1aff3Kana ",
  "1aff5-1affbKana 1affd-1affeKana 1b000Kana 1b001-1b11fHira 1b120-1b122Kana 1b132Hira ",
  "1b150-1b152Hira 1b155Kana 1b164-1b167Kana 1b170-1b2fbNshu 1bc00-1bc6aDupl 1bc70-1bc7cDupl ",
  "1bc80-1bc88Dupl 1bc90-1bc99Dupl 1bc9c-1bc9fDupl 1bca0-1bca3Zyyy 1cc00-1ccf9Zyyy ",
  "1cd00-1ceb3Zyyy 1cf00-1cf2dZinh 1cf30-1cf46Zinh 1cf50-1cfc3Zyyy 1d000-1d0f5Zyyy ",
  "1d100-1d126Zyyy 1d129-1d166Zyyy 1d167-1d169Zinh 1d16a-1d17aZyyy 1d17b-1d182Zinh ",
  "1d183-1d184Zyyy 1d185-1d18bZinh 1d18c-1d1a9Zyyy 1d1aa-1d1adZinh 1d1ae-1d1eaZyyy ",
  "1d200-1d245Grek 1d2c0-1d2d3Zyyy 1d2e0-1d2f3Zyyy 1d300-1d356Zyyy 1d360-1d378Zyyy ",
  "1d400-1d454Zyyy 1d456-1d49cZyyy 1d49e-1d49fZyyy 1d4a2Zyyy 1d4a5-1d4a6Zyyy 1d4a9-1d4acZyyy ",
  "1d4ae-1d4b9Zyyy 1d4bbZyyy 1d4bd-1d4c3Zyyy 1d4c5-1d505Zyyy 1d507-1d50aZyyy 1d50d-1d514Zyyy ",
  "1d516-1d51cZyyy 1d51e-1d539Zyyy 1d53b-1d53eZyyy 1d540-1d544Zyyy 1d546Zyyy 1d54a-1d550Zyyy ",
  "1d552-1d6a5Zyyy 1d6a8-1d7cbZyyy 1d7ce-1d7ffZyyy 1d800-1da8bSgnw 1da9b-1da9fSgnw ",
  "1daa1-1daafSgnw 1df00-1df1eLatn 1df25-1df2aLatn 1e000-1e006Glag 1e008-1e018Glag ",
  "1e01b-1e021Glag 1e023-1e024Glag 1e026-1e02aGlag 1e030-1e06dCyrl 1e08fCyrl 1e100-1e12cHmnp ",
  "1e130-1e13dHmnp 1e140-1e149Hmnp 1e14e-1e14fHmnp 1e290-1e2aeToto 1e2c0-1e2f9Wcho 1e2ffWcho ",
  "1e4d0-1e4f9Nagm 1e5d0-1e5faOnao 1e5ffOnao 1e7e0-1e7e6Ethi 1e7e8-1e7ebEthi 1e7ed-1e7eeEthi ",
  "1e7f0-1e7feEthi 1e800-1e8c4Mend 1e8c7-1e8d6Mend 1e900-1e94bAdlm 1e950-1e959Adlm ",
  "1e95e-1e95fAdlm 1ec71-1ecb4Zyyy 1ed01-1ed3dZyyy 1ee00-1ee03Arab 1ee05-1ee1fArab ",
  "1ee21-1ee22Arab 1ee24Arab 1ee27Arab 1ee29-1ee32Arab 1ee34-1ee37Arab 1ee39Arab 1ee3bArab ",
  "1ee42Arab 1ee47Arab 1ee49Arab 1ee4bArab 1ee4d-1ee4fArab 1ee51-1ee52Arab 1ee54Arab 1ee57Arab ",
  "1ee59Arab 1ee5bArab 1ee5dArab 1ee5fArab 1ee61-1ee62Arab 1ee64Arab 1ee67-1ee6aArab ",
  "1ee6c-1ee72Arab 1ee74-1ee77Arab 1ee79-1ee7cArab 1ee7eArab 1ee80-1ee89Arab 1ee8b-1ee9bArab ",
  "1eea1-1eea3Arab 1eea5-1eea9Arab 1eeab-1eebbArab 1eef0-1eef1Arab 1f000-1f02bZyyy ",
  "1f030-1f093Zyyy 1f0a0-1f0aeZyyy 1f0b1-1f0bfZyyy 1f0c1-1f0cfZyyy 1f0d1-1f0f5Zyyy ",
  "1f100-1f1adZyyy 1f1e6-1f1ffZyyy 1f200Hira 1f201-1f202Zyyy 1f210-1f23bZyyy 1f240-1f248Zyyy ",
  "1f250-1f251Zyyy 1f260-1f265Zyyy 1f300-1f6d7Zyyy 1f6dc-1f6ecZyyy 1f6f0-1f6fcZyyy ",
  "1f700-1f776Zyyy 1f77b-1f7d9Zyyy 1f7e0-1f7ebZyyy 1f7f0Zyyy 1f800-1f80bZyyy 1f810-1f847Zyyy ",
  "1f850-1f859Zyyy 1f860-1f887Zyyy 1f890-1f8adZyyy 1f8b0-1f8bbZyyy 1f8c0-1f8c1Zyyy ",
  "1f900-1fa53Zyyy 1fa60-1fa6dZyyy 1fa70-1fa7cZyyy 1fa80-1fa89Zyyy 1fa8f-1fac6Zyyy ",
  "1face-1fadcZyyy 1fadf-1fae9Zyyy 1faf0-1faf8Zyyy 1fb00-1fb92Zyyy 1fb94-1fbf9Zyyy ",
  "20000-2a6dfHani 2a700-2b739Hani 2b740-2b81dHani 2b820-2cea1Hani 2ceb0-2ebe0Hani ",
  "2ebf0-2ee5dHani 2f800-2fa1dHani 30000-3134aHani 31350-323afHani e0001Zyyy e0020-e007fZyyy ",
  "e0100-e01efZinh"])

/-- The scripts of the characters that are not used in their own script alone. -/
private def sharedTable : CodeTable (List Script) := .ofText manyOfLetters? (String.join [
  "b7AvstCariCoptDuplElbaGeorGlagGongGothGrekHaniLatnLydiMahjPermShaw ",
  "2bcBengCyrlDevaLatnLisuThaiToto 2c7BopoLatn 2c9-2cbBopoLatn 2cdLatnLisu 2d7LatnThai ",
  "2d9BopoLatn 300CherCoptCyrlGrekLatnPermSunuTale 301CherCyrlGrekLatnOsgeSunuTaleTodr ",
  "302CherCyrlLatnTfng 303GlagLatnSunuSyrcThai 304AghbCherCoptCyrlGothGrekLatnOsgeSyrcTfngTodr ",
  "305CoptElbaGlagGothKanaLatn 306CyrlGrekLatnPermTfng 307CoptDuplHebrLatnPermSyrcTaleTfngTodr ",
  "308ArmnCyrlDuplGothGrekHebrLatnPermSyrcTaleTfng 309LatnTfng 30aDuplLatnSyrc ",
  "30bCherCyrlLatnOsge 30cCherLatnTale 30dLatnSunu 30eEthiLatn 310LatnSunu 311CyrlLatnTodr ",
  "313GrekLatnPermTodr 323CherDuplKanaLatnSyrcTfng 324CherDuplLatnSyrc 325LatnSyrc ",
  "32dLatnSunuSyrc 32eLatnSyrc 330CherLatnSyrc 331AghbCherGothLatnSunuSyrcThai 342Grek 345Grek ",
  "358LatnOsge 35eAghbLatnTodr 363-36fLatn 374-375CoptGrek 483CyrlPerm 484CyrlGlag ",
  "485-486CyrlLatn 487CyrlGlag 589ArmnGeorGlag 60cArabGaraNkooRohgSyrcThaaYezi ",
  "61bArabGaraNkooRohgSyrcThaaYezi 61cArabSyrcThaa 61fAdlmArabGaraNkooRohgSyrcThaaYezi ",
  "640AdlmArabMandManiOugrPhlpRohgSogdSyrc 64b-655ArabSyrc 660-669ArabThaaYezi 670ArabSyrc ",
  "6d4ArabRohg 951BengDevaGranGujrGuruKndaLatnMlymNandNewaOryaShrdTamlTeluTirh ",
  "952BengDevaGranGujrGuruKndaLatnMlymNewaOryaTamlTeluTirh ",
  "964BengDevaDogrGongGonmGranGujrGuruKndaMahjMlymNandOnaoOryaSindSinhSyloTakrTamlTeluTirh ",
  "965BengDevaDogrGongGonmGranGujrGukhGuruKndaLimbMahjMlymNandOnaoOryaSindSinhSyloTakrTamlTeluTirh ",
  "966-96fDevaDogrKthiMahj 9e6-9efBengCakmSylo a66-a6fGuruMult ae6-aefGujrKhoj be6-bf3GranTaml ",
  "ce6-cefKndaNandTutg 1040-1049CakmMymrTale 10fbGeorGlagLatn 16eb-16edRunr ",
  "1735-1736BuhdHanoTagbTglg 1802-1803MongPhag 1805MongPhag 1cd0BengDevaGranKnda 1cd1Deva ",
  "1cd2BengDevaGranKnda 1cd3DevaGranKnda 1cd4Deva 1cd5BengDevaNewaTeluTirh 1cd6BengDevaTelu ",
  "1cd7DevaNewaShrd 1cd8BengDevaNewaTelu 1cd9DevaShrd 1cdaDevaKndaMlymOryaTamlTelu 1cdbDeva ",
  "1cdc-1cddDevaShrd 1cde-1cdfDeva 1ce0DevaShrd 1ce1BengDeva 1ce2DevaNewaTirh 1ce3-1ce8Deva ",
  "1ce9DevaNandNewa 1ceaBengDevaShrd 1cebDevaNewa 1cecDeva 1cedBengDevaNewaShrd 1cee-1cf1Deva ",
  "1cf2BengDevaGranKndaMlymNandOryaSinhTeluTirhTutg 1cf3DevaGran 1cf4DevaGranKndaTutg ",
  "1cf5-1cf6BengDeva 1cf7Beng 1cf8-1cf9DevaGran 1cfaNand 1dc0-1dc1Grek 1df8CyrlLatnSyrc ",
  "1dfaSyrc 202fLatnMongPhag 204fAdlmArab 205aCariGeorGlagHungLyciOrkh 205dCariGrekHungMero ",
  "20f0DevaGranLatn 2e17CoptLatn 2e30AvstOrkh 2e31AvstCariGeorHungKthiLydiSamr 2e3cDupl ",
  "2e41AdlmArabHung 2e43CyrlGlag 2ff0-2fffHaniTang 3001BopoHangHaniHiraKanaMongYiii ",
  "3002BopoHangHaniHiraKanaMongPhagYiii 3003BopoHangHaniHiraKana 3006Hani ",
  "3008-3009BopoHangHaniHiraKanaMongTibtYiii 300a-300bBopoHangHaniHiraKanaLisuMongTibtYiii ",
  "300c-3011BopoHangHaniHiraKanaYiii 3013BopoHangHaniHiraKana 3014-301bBopoHangHaniHiraKanaYiii ",
  "301c-301fBopoHangHaniHiraKana 302a-302dBopoHani 3030BopoHangHaniHiraKana 3031-3035HiraKana ",
  "3037BopoHangHaniHiraKana 303c-303dHaniHiraKana 303e-303fHani 3099-309cHiraKana 30a0HiraKana ",
  "30fbBopoHangHaniHiraKanaYiii 30fcHiraKana 3190-319fHani 31c0-31e5Hani 31efHaniTang ",
  "3220-3247Hani 3280-32b0Hani 32c0-32cbHani 32ffHani 3358-3370Hani 337b-337fHani 33e0-33feHani ",
  "a66fCyrlGlag a700-a707HaniLatn ",
  "a830-a832DevaDogrGujrGuruKhojKndaKthiMahjMlymModiNandShrdSindTakrTirhTutg ",
  "a833-a835DevaDogrGujrGuruKhojKndaKthiMahjModiNandShrdSindTakrTirhTutg ",
  "a836-a837DevaDogrGujrGuruKhojKthiMahjModiSindTakrTirh ",
  "a838DevaDogrGujrGuruKhojKthiMahjModiShrdSindTakrTirh ",
  "a839DevaDogrGujrGuruKhojKthiMahjModiSindTakrTirh a8f1BengDevaTutg a8f3DevaTaml ",
  "a92eKaliLatnMymr a9cfBugiJava fd3e-fd3fArabNkoo fdf2ArabThaa fdfdArabThaa ",
  "fe45-fe46BopoHangHaniHiraKana ff61-ff65BopoHangHaniHiraKanaYiii ff70HiraKana ",
  "ff9e-ff9fHiraKana 10100-10101CpmnCprtLinb 10102CprtLinb 10107-10133CprtLinaLinb ",
  "10137-1013fCprtLinb 102e0-102fbArabCopt 10af2ManiOugr 11301GranTaml 11303GranTaml ",
  "1133b-1133cGranTaml 11fd0-11fd1GranTaml 11fd3GranTaml 1bca0-1bca3Dupl 1d360-1d371Hani ",
  "1f250-1f251Hani"])

/-- Whether a character is of a script. -/
def has (s : Script) (c : Char) : Bool :=
  table.find? c.toNat == some s

/-- Whether a character is used in a script. -/
def uses (s : Script) (c : Char) : Bool :=
  match sharedTable.find? c.toNat with
  | some scripts => scripts.contains s
  | none => s.has c

/-- The scripts by their names in small letters without lines between the words, apart from the
four letters. -/
def names : List (String × String) := [
  ("adlam", "Adlm"), ("ahom", "Ahom"), ("anatolianhieroglyphs", "Hluw"), ("arabic", "Arab"),
  ("armenian", "Armn"), ("avestan", "Avst"), ("balinese", "Bali"), ("bamum", "Bamu"),
  ("bassavah", "Bass"), ("batak", "Batk"), ("bengali", "Beng"), ("bhaiksuki", "Bhks"),
  ("bopomofo", "Bopo"), ("brahmi", "Brah"), ("braille", "Brai"), ("buginese", "Bugi"),
  ("buhid", "Buhd"), ("canadianaboriginal", "Cans"), ("carian", "Cari"),
  ("caucasianalbanian", "Aghb"), ("chakma", "Cakm"), ("cham", "Cham"), ("cherokee", "Cher"),
  ("chorasmian", "Chrs"), ("common", "Zyyy"), ("coptic", "Copt"), ("qaac", "Copt"),
  ("cuneiform", "Xsux"), ("cypriot", "Cprt"), ("cyprominoan", "Cpmn"), ("cyrillic", "Cyrl"),
  ("deseret", "Dsrt"), ("devanagari", "Deva"), ("divesakuru", "Diak"), ("dogra", "Dogr"),
  ("duployan", "Dupl"), ("egyptianhieroglyphs", "Egyp"), ("elbasan", "Elba"), ("elymaic", "Elym"),
  ("ethiopic", "Ethi"), ("garay", "Gara"), ("georgian", "Geor"), ("glagolitic", "Glag"),
  ("gothic", "Goth"), ("grantha", "Gran"), ("greek", "Grek"), ("gujarati", "Gujr"),
  ("gunjalagondi", "Gong"), ("gurmukhi", "Guru"), ("gurungkhema", "Gukh"), ("han", "Hani"),
  ("hangul", "Hang"), ("hanifirohingya", "Rohg"), ("hanunoo", "Hano"), ("hatran", "Hatr"),
  ("hebrew", "Hebr"), ("hiragana", "Hira"), ("imperialaramaic", "Armi"), ("inherited", "Zinh"),
  ("qaai", "Zinh"), ("inscriptionalpahlavi", "Phli"), ("inscriptionalparthian", "Prti"),
  ("javanese", "Java"), ("kaithi", "Kthi"), ("kannada", "Knda"), ("katakana", "Kana"),
  ("kawi", "Kawi"), ("kayahli", "Kali"), ("kharoshthi", "Khar"), ("khitansmallscript", "Kits"),
  ("khmer", "Khmr"), ("khojki", "Khoj"), ("khudawadi", "Sind"), ("kiratrai", "Krai"),
  ("lao", "Laoo"), ("latin", "Latn"), ("lepcha", "Lepc"), ("limbu", "Limb"), ("lineara", "Lina"),
  ("linearb", "Linb"), ("lisu", "Lisu"), ("lycian", "Lyci"), ("lydian", "Lydi"),
  ("mahajani", "Mahj"), ("makasar", "Maka"), ("malayalam", "Mlym"), ("mandaic", "Mand"),
  ("manichaean", "Mani"), ("marchen", "Marc"), ("masaramgondi", "Gonm"), ("medefaidrin", "Medf"),
  ("meeteimayek", "Mtei"), ("mendekikakui", "Mend"), ("meroiticcursive", "Merc"),
  ("meroitichieroglyphs", "Mero"), ("miao", "Plrd"), ("modi", "Modi"), ("mongolian", "Mong"),
  ("mro", "Mroo"), ("multani", "Mult"), ("myanmar", "Mymr"), ("nabataean", "Nbat"),
  ("nagmundari", "Nagm"), ("nandinagari", "Nand"), ("newtailue", "Talu"), ("newa", "Newa"),
  ("nko", "Nkoo"), ("nushu", "Nshu"), ("nyiakengpuachuehmong", "Hmnp"), ("ogham", "Ogam"),
  ("olchiki", "Olck"), ("olonal", "Onao"), ("oldhungarian", "Hung"), ("olditalic", "Ital"),
  ("oldnortharabian", "Narb"), ("oldpermic", "Perm"), ("oldpersian", "Xpeo"),
  ("oldsogdian", "Sogo"), ("oldsoutharabian", "Sarb"), ("oldturkic", "Orkh"), ("olduyghur", "Ougr"),
  ("oriya", "Orya"), ("osage", "Osge"), ("osmanya", "Osma"), ("pahawhhmong", "Hmng"),
  ("palmyrene", "Palm"), ("paucinhau", "Pauc"), ("phagspa", "Phag"), ("phoenician", "Phnx"),
  ("psalterpahlavi", "Phlp"), ("rejang", "Rjng"), ("runic", "Runr"), ("samaritan", "Samr"),
  ("saurashtra", "Saur"), ("sharada", "Shrd"), ("shavian", "Shaw"), ("siddham", "Sidd"),
  ("signwriting", "Sgnw"), ("sinhala", "Sinh"), ("sogdian", "Sogd"), ("sorasompeng", "Sora"),
  ("soyombo", "Soyo"), ("sundanese", "Sund"), ("sunuwar", "Sunu"), ("sylotinagri", "Sylo"),
  ("syriac", "Syrc"), ("tagalog", "Tglg"), ("tagbanwa", "Tagb"), ("taile", "Tale"),
  ("taitham", "Lana"), ("taiviet", "Tavt"), ("takri", "Takr"), ("tamil", "Taml"),
  ("tangsa", "Tnsa"), ("tangut", "Tang"), ("telugu", "Telu"), ("thaana", "Thaa"), ("thai", "Thai"),
  ("tibetan", "Tibt"), ("tifinagh", "Tfng"), ("tirhuta", "Tirh"), ("todhri", "Todr"),
  ("toto", "Toto"), ("tulutigalari", "Tutg"), ("ugaritic", "Ugar"), ("vai", "Vaii"),
  ("vithkuqi", "Vith"), ("wancho", "Wcho"), ("warangciti", "Wara"), ("yezidi", "Yezi"),
  ("yi", "Yiii"), ("zanabazarsquare", "Zanb")]

/-- The script of a name in small letters, long or short. -/
def named? (name : String) : Option Script :=
  match names.lookup name with
  | some letters => some ⟨letters⟩
  | none => (names.find? fun n => n.2.toLower == name).map fun n => ⟨n.2⟩

end Script

end CodeGraph.Text
