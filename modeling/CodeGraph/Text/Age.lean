import CodeGraph.Text.CodeTable

/-!
# Age of characters

The edition of the character database in which each character was added, up to the sixteenth.
-/

namespace CodeGraph.Text

/-- An edition, by its number and the number of its revision. -/
structure Age where
  edition : Nat
  revision : Nat
  deriving DecidableEq, Repr, Inhabited

namespace Age

/-- Whether one edition is not after another. -/
def le (a b : Age) : Bool :=
  a.edition < b.edition || (a.edition == b.edition && a.revision ≤ b.revision)

/-- The edition of two numbers, written with `v` before and a point between them. -/
def ofText? (s : String) : Option Age :=
  match (s.drop 1).toString.splitOn "." with
  | [a, b] => do return ⟨← a.toNat?, ← b.toNat?⟩
  | _ => none

/-- The edition that each character was added in. -/
private def table : CodeTable Age := .ofText ofText? (String.join [
  "0-1f5v1.1 1f6-1f9v3.0 1fa-217v1.1 218-21fv3.0 220v3.2 221v4.0 222-233v3.0 234-236v4.0 ",
  "237-241v4.1 242-24fv5.0 250-2a8v1.1 2a9-2adv3.0 2ae-2afv4.0 2b0-2dev1.1 2dfv3.0 2e0-2e9v1.1 ",
  "2ea-2eev3.0 2ef-2ffv4.0 300-345v1.1 346-34ev3.0 34fv3.2 350-357v4.0 358-35cv4.1 35d-35fv4.0 ",
  "360-361v1.1 362v3.0 363-36fv3.2 370-373v5.1 374-375v1.1 376-377v5.1 37av1.1 37b-37dv5.0 ",
  "37ev1.1 37fv7.0 384-38av1.1 38cv1.1 38e-3a1v1.1 3a3-3cev1.1 3cfv5.1 3d0-3d6v1.1 3d7v3.0 ",
  "3d8-3d9v3.2 3dav1.1 3dbv3.0 3dcv1.1 3ddv3.0 3dev1.1 3dfv3.0 3e0v1.1 3e1v3.0 3e2-3f3v1.1 ",
  "3f4-3f5v3.1 3f6v3.2 3f7-3fbv4.0 3fc-3ffv4.1 400v3.0 401-40cv1.1 40dv3.0 40e-44fv1.1 450v3.0 ",
  "451-45cv1.1 45dv3.0 45e-486v1.1 487v5.1 488-489v3.0 48a-48bv3.2 48c-48fv3.0 490-4c4v1.1 ",
  "4c5-4c6v3.2 4c7-4c8v1.1 4c9-4cav3.2 4cb-4ccv1.1 4cd-4cev3.2 4cfv5.0 4d0-4ebv1.1 4ec-4edv3.0 ",
  "4ee-4f5v1.1 4f6-4f7v4.1 4f8-4f9v1.1 4fa-4ffv5.0 500-50fv3.2 510-513v5.0 514-523v5.1 ",
  "524-525v5.2 526-527v6.0 528-52fv7.0 531-556v1.1 559-55fv1.1 560v11.0 561-587v1.1 588v11.0 ",
  "589v1.1 58av3.0 58d-58ev7.0 58fv6.1 591-5a1v2.0 5a2v4.1 5a3-5afv2.0 5b0-5b9v1.1 5bav5.0 ",
  "5bb-5c3v1.1 5c4v2.0 5c5-5c7v4.1 5d0-5eav1.1 5efv11.0 5f0-5f4v1.1 600-603v4.0 604v6.1 605v7.0 ",
  "606-60av5.1 60bv4.1 60cv1.1 60d-615v4.0 616-61av5.1 61bv1.1 61cv6.3 61dv14.0 61ev4.1 61fv1.1 ",
  "620v6.0 621-63av1.1 63b-63fv5.1 640-652v1.1 653-655v3.0 656-658v4.0 659-65ev4.1 65fv6.0 ",
  "660-66dv1.1 66e-66fv3.2 670-6b7v1.1 6b8-6b9v3.0 6ba-6bev1.1 6bfv3.0 6c0-6cev1.1 6cfv3.0 ",
  "6d0-6edv1.1 6ee-6efv4.0 6f0-6f9v1.1 6fa-6fev3.0 6ffv4.0 700-70dv3.0 70f-72cv3.0 72d-72fv4.0 ",
  "730-74av3.0 74d-74fv4.0 750-76dv4.1 76e-77fv5.1 780-7b0v3.0 7b1v3.2 7c0-7fav5.0 7fd-7ffv11.0 ",
  "800-82dv5.2 830-83ev5.2 840-85bv6.0 85ev6.0 860-86av10.0 870-88ev14.0 890-891v14.0 897v16.0 ",
  "898-89fv14.0 8a0v6.1 8a1v7.0 8a2-8acv6.1 8ad-8b2v7.0 8b3-8b4v8.0 8b5v14.0 8b6-8bdv9.0 ",
  "8be-8c7v13.0 8c8-8d2v14.0 8d3v11.0 8d4-8e2v9.0 8e3v8.0 8e4-8fev6.1 8ffv7.0 900v5.2 ",
  "901-903v1.1 904v4.0 905-939v1.1 93a-93bv6.0 93c-94dv1.1 94ev5.2 94fv6.0 950-954v1.1 955v5.2 ",
  "956-957v6.0 958-970v1.1 971-972v5.1 973-977v6.0 978v7.0 979-97av5.2 97b-97cv5.0 97dv4.1 ",
  "97e-97fv5.0 980v7.0 981-983v1.1 985-98cv1.1 98f-990v1.1 993-9a8v1.1 9aa-9b0v1.1 9b2v1.1 ",
  "9b6-9b9v1.1 9bcv1.1 9bdv4.0 9be-9c4v1.1 9c7-9c8v1.1 9cb-9cdv1.1 9cev4.1 9d7v1.1 9dc-9ddv1.1 ",
  "9df-9e3v1.1 9e6-9fav1.1 9fbv5.2 9fc-9fdv10.0 9fev11.0 a01v4.0 a02v1.1 a03v4.0 a05-a0av1.1 ",
  "a0f-a10v1.1 a13-a28v1.1 a2a-a30v1.1 a32-a33v1.1 a35-a36v1.1 a38-a39v1.1 a3cv1.1 a3e-a42v1.1 ",
  "a47-a48v1.1 a4b-a4dv1.1 a51v5.1 a59-a5cv1.1 a5ev1.1 a66-a74v1.1 a75v5.1 a76v11.0 a81-a83v1.1 ",
  "a85-a8bv1.1 a8cv4.0 a8dv1.1 a8f-a91v1.1 a93-aa8v1.1 aaa-ab0v1.1 ab2-ab3v1.1 ab5-ab9v1.1 ",
  "abc-ac5v1.1 ac7-ac9v1.1 acb-acdv1.1 ad0v1.1 ae0v1.1 ae1-ae3v4.0 ae6-aefv1.1 af0v6.1 af1v4.0 ",
  "af9v8.0 afa-affv10.0 b01-b03v1.1 b05-b0cv1.1 b0f-b10v1.1 b13-b28v1.1 b2a-b30v1.1 b32-b33v1.1 ",
  "b35v4.0 b36-b39v1.1 b3c-b43v1.1 b44v5.1 b47-b48v1.1 b4b-b4dv1.1 b55v13.0 b56-b57v1.1 ",
  "b5c-b5dv1.1 b5f-b61v1.1 b62-b63v5.1 b66-b70v1.1 b71v4.0 b72-b77v6.0 b82-b83v1.1 b85-b8av1.1 ",
  "b8e-b90v1.1 b92-b95v1.1 b99-b9av1.1 b9cv1.1 b9e-b9fv1.1 ba3-ba4v1.1 ba8-baav1.1 bae-bb5v1.1 ",
  "bb6v4.1 bb7-bb9v1.1 bbe-bc2v1.1 bc6-bc8v1.1 bca-bcdv1.1 bd0v5.1 bd7v1.1 be6v4.1 be7-bf2v1.1 ",
  "bf3-bfav4.0 c00v7.0 c01-c03v1.1 c04v11.0 c05-c0cv1.1 c0e-c10v1.1 c12-c28v1.1 c2a-c33v1.1 ",
  "c34v7.0 c35-c39v1.1 c3cv14.0 c3dv5.1 c3e-c44v1.1 c46-c48v1.1 c4a-c4dv1.1 c55-c56v1.1 ",
  "c58-c59v5.1 c5av8.0 c5dv14.0 c60-c61v1.1 c62-c63v5.1 c66-c6fv1.1 c77v12.0 c78-c7fv5.1 ",
  "c80v9.0 c81v7.0 c82-c83v1.1 c84v11.0 c85-c8cv1.1 c8e-c90v1.1 c92-ca8v1.1 caa-cb3v1.1 ",
  "cb5-cb9v1.1 cbc-cbdv4.0 cbe-cc4v1.1 cc6-cc8v1.1 cca-ccdv1.1 cd5-cd6v1.1 cddv14.0 cdev1.1 ",
  "ce0-ce1v1.1 ce2-ce3v5.0 ce6-cefv1.1 cf1-cf2v5.0 cf3v15.0 d00v10.0 d01v7.0 d02-d03v1.1 ",
  "d04v13.0 d05-d0cv1.1 d0e-d10v1.1 d12-d28v1.1 d29v6.0 d2a-d39v1.1 d3av6.0 d3b-d3cv10.0 ",
  "d3dv5.1 d3e-d43v1.1 d44v5.1 d46-d48v1.1 d4a-d4dv1.1 d4ev6.0 d4fv9.0 d54-d56v9.0 d57v1.1 ",
  "d58-d5ev9.0 d5fv8.0 d60-d61v1.1 d62-d63v5.1 d66-d6fv1.1 d70-d75v5.1 d76-d78v9.0 d79-d7fv5.1 ",
  "d81v13.0 d82-d83v3.0 d85-d96v3.0 d9a-db1v3.0 db3-dbbv3.0 dbdv3.0 dc0-dc6v3.0 dcav3.0 ",
  "dcf-dd4v3.0 dd6v3.0 dd8-ddfv3.0 de6-defv7.0 df2-df4v3.0 e01-e3av1.1 e3f-e5bv1.1 e81-e82v1.1 ",
  "e84v1.1 e86v12.0 e87-e88v1.1 e89v12.0 e8av1.1 e8cv12.0 e8dv1.1 e8e-e93v12.0 e94-e97v1.1 ",
  "e98v12.0 e99-e9fv1.1 ea0v12.0 ea1-ea3v1.1 ea5v1.1 ea7v1.1 ea8-ea9v12.0 eaa-eabv1.1 eacv12.0 ",
  "ead-eb9v1.1 ebav12.0 ebb-ebdv1.1 ec0-ec4v1.1 ec6v1.1 ec8-ecdv1.1 ecev15.0 ed0-ed9v1.1 ",
  "edc-eddv1.1 ede-edfv6.1 f00-f47v2.0 f49-f69v2.0 f6av3.0 f6b-f6cv5.1 f71-f8bv2.0 f8c-f8fv6.0 ",
  "f90-f95v2.0 f96v3.0 f97v2.0 f99-fadv2.0 fae-fb0v3.0 fb1-fb7v2.0 fb8v3.0 fb9v2.0 fba-fbcv3.0 ",
  "fbe-fccv3.0 fcev5.1 fcfv3.0 fd0-fd1v4.1 fd2-fd4v5.1 fd5-fd8v5.2 fd9-fdav6.0 1000-1021v3.0 ",
  "1022v5.1 1023-1027v3.0 1028v5.1 1029-102av3.0 102bv5.1 102c-1032v3.0 1033-1035v5.1 ",
  "1036-1039v3.0 103a-103fv5.1 1040-1059v3.0 105a-1099v5.1 109a-109dv5.2 109e-109fv5.1 ",
  "10a0-10c5v1.1 10c7v6.1 10cdv6.1 10d0-10f6v1.1 10f7-10f8v3.2 10f9-10fav4.1 10fbv1.1 10fcv4.1 ",
  "10fd-10ffv6.1 1100-1159v1.1 115a-115ev5.2 115f-11a2v1.1 11a3-11a7v5.2 11a8-11f9v1.1 ",
  "11fa-11ffv5.2 1200-1206v3.0 1207v4.1 1208-1246v3.0 1247v4.1 1248v3.0 124a-124dv3.0 ",
  "1250-1256v3.0 1258v3.0 125a-125dv3.0 1260-1286v3.0 1287v4.1 1288v3.0 128a-128dv3.0 ",
  "1290-12aev3.0 12afv4.1 12b0v3.0 12b2-12b5v3.0 12b8-12bev3.0 12c0v3.0 12c2-12c5v3.0 ",
  "12c8-12cev3.0 12cfv4.1 12d0-12d6v3.0 12d8-12eev3.0 12efv4.1 12f0-130ev3.0 130fv4.1 1310v3.0 ",
  "1312-1315v3.0 1318-131ev3.0 131fv4.1 1320-1346v3.0 1347v4.1 1348-135av3.0 135d-135ev6.0 ",
  "135f-1360v4.1 1361-137cv3.0 1380-1399v4.1 13a0-13f4v3.0 13f5v8.0 13f8-13fdv8.0 1400v5.2 ",
  "1401-1676v3.0 1677-167fv5.2 1680-169cv3.0 16a0-16f0v3.0 16f1-16f8v7.0 1700-170cv3.2 ",
  "170dv14.0 170e-1714v3.2 1715v14.0 171fv14.0 1720-1736v3.2 1740-1753v3.2 1760-176cv3.2 ",
  "176e-1770v3.2 1772-1773v3.2 1780-17dcv3.0 17ddv4.0 17e0-17e9v3.0 17f0-17f9v4.0 1800-180ev3.0 ",
  "180fv14.0 1810-1819v3.0 1820-1877v3.0 1878v11.0 1880-18a9v3.0 18aav5.1 18b0-18f5v5.2 ",
  "1900-191cv4.0 191d-191ev7.0 1920-192bv4.0 1930-193bv4.0 1940v4.0 1944-196dv4.0 1970-1974v4.0 ",
  "1980-19a9v4.1 19aa-19abv5.2 19b0-19c9v4.1 19d0-19d9v4.1 19dav5.2 19de-19dfv4.1 19e0-19ffv4.0 ",
  "1a00-1a1bv4.1 1a1e-1a1fv4.1 1a20-1a5ev5.2 1a60-1a7cv5.2 1a7f-1a89v5.2 1a90-1a99v5.2 ",
  "1aa0-1aadv5.2 1ab0-1abev7.0 1abf-1ac0v13.0 1ac1-1acev14.0 1b00-1b4bv5.0 1b4cv14.0 ",
  "1b4e-1b4fv16.0 1b50-1b7cv5.0 1b7d-1b7ev14.0 1b7fv16.0 1b80-1baav5.1 1bab-1badv6.1 ",
  "1bae-1bb9v5.1 1bba-1bbfv6.1 1bc0-1bf3v6.0 1bfc-1bffv6.0 1c00-1c37v5.1 1c3b-1c49v5.1 ",
  "1c4d-1c7fv5.1 1c80-1c88v9.0 1c89-1c8av16.0 1c90-1cbav11.0 1cbd-1cbfv11.0 1cc0-1cc7v6.1 ",
  "1cd0-1cf2v5.2 1cf3-1cf6v6.1 1cf7v10.0 1cf8-1cf9v7.0 1cfav12.0 1d00-1d6bv4.0 1d6c-1dc3v4.1 ",
  "1dc4-1dcav5.0 1dcb-1de6v5.1 1de7-1df5v7.0 1df6-1df9v10.0 1dfav14.0 1dfbv9.0 1dfcv6.0 ",
  "1dfdv5.2 1dfe-1dffv5.0 1e00-1e9av1.1 1e9bv2.0 1e9c-1e9fv5.1 1ea0-1ef9v1.1 1efa-1effv5.1 ",
  "1f00-1f15v1.1 1f18-1f1dv1.1 1f20-1f45v1.1 1f48-1f4dv1.1 1f50-1f57v1.1 1f59v1.1 1f5bv1.1 ",
  "1f5dv1.1 1f5f-1f7dv1.1 1f80-1fb4v1.1 1fb6-1fc4v1.1 1fc6-1fd3v1.1 1fd6-1fdbv1.1 1fdd-1fefv1.1 ",
  "1ff2-1ff4v1.1 1ff6-1ffev1.1 2000-202ev1.1 202fv3.0 2030-2046v1.1 2047v3.2 2048-204dv3.0 ",
  "204e-2052v3.2 2053-2054v4.0 2055-2056v4.1 2057v3.2 2058-205ev4.1 205f-2063v3.2 2064v5.1 ",
  "2066-2069v6.3 206a-2070v1.1 2071v3.2 2074-208ev1.1 2090-2094v4.1 2095-209cv6.0 20a0-20aav1.1 ",
  "20abv2.0 20acv2.1 20ad-20afv3.0 20b0-20b1v3.2 20b2-20b5v4.1 20b6-20b8v5.2 20b9v6.0 20bav6.2 ",
  "20bb-20bdv7.0 20bev8.0 20bfv10.0 20c0v14.0 20d0-20e1v1.1 20e2-20e3v3.0 20e4-20eav3.2 ",
  "20ebv4.1 20ec-20efv5.0 20f0v5.1 2100-2138v1.1 2139-213av3.0 213bv4.0 213cv4.1 213d-214bv3.2 ",
  "214cv4.1 214d-214ev5.0 214fv5.1 2150-2152v5.2 2153-2182v1.1 2183v3.0 2184v5.0 2185-2188v5.1 ",
  "2189v5.2 218a-218bv8.0 2190-21eav1.1 21eb-21f3v3.0 21f4-21ffv3.2 2200-22f1v1.1 22f2-22ffv3.2 ",
  "2300v1.1 2301v3.0 2302-237av1.1 237bv3.0 237cv3.2 237d-239av3.0 239b-23cev3.2 23cf-23d0v4.0 ",
  "23d1-23dbv4.1 23dc-23e7v5.0 23e8v5.2 23e9-23f3v6.0 23f4-23fav7.0 23fb-23fev9.0 23ffv10.0 ",
  "2400-2424v1.1 2425-2426v3.0 2427-2429v16.0 2440-244av1.1 2460-24eav1.1 24eb-24fev3.2 ",
  "24ffv4.0 2500-2595v1.1 2596-259fv3.2 25a0-25efv1.1 25f0-25f7v3.0 25f8-25ffv3.2 2600-2613v1.1 ",
  "2614-2615v4.0 2616-2617v3.2 2618v4.1 2619v3.0 261a-266fv1.1 2670-2671v3.0 2672-267dv3.2 ",
  "267e-267fv4.1 2680-2689v3.2 268a-2691v4.0 2692-269cv4.1 269dv5.1 269e-269fv5.2 26a0-26a1v4.0 ",
  "26a2-26b1v4.1 26b2v5.0 26b3-26bcv5.1 26bd-26bfv5.2 26c0-26c3v5.1 26c4-26cdv5.2 26cev6.0 ",
  "26cf-26e1v5.2 26e2v6.0 26e3v5.2 26e4-26e7v6.0 26e8-26ffv5.2 2700v7.0 2701-2704v1.1 2705v6.0 ",
  "2706-2709v1.1 270a-270bv6.0 270c-2727v1.1 2728v6.0 2729-274bv1.1 274cv6.0 274dv1.1 274ev6.0 ",
  "274f-2752v1.1 2753-2755v6.0 2756v1.1 2757v5.2 2758-275ev1.1 275f-2760v6.0 2761-2767v1.1 ",
  "2768-2775v3.2 2776-2794v1.1 2795-2797v6.0 2798-27afv1.1 27b0v6.0 27b1-27bev1.1 27bfv6.0 ",
  "27c0-27c6v4.1 27c7-27cav5.0 27cbv6.1 27ccv5.1 27cdv6.1 27ce-27cfv6.0 27d0-27ebv3.2 ",
  "27ec-27efv5.1 27f0-27ffv3.2 2800-28ffv3.0 2900-2affv3.2 2b00-2b0dv4.0 2b0e-2b13v4.1 ",
  "2b14-2b1av5.0 2b1b-2b1fv5.1 2b20-2b23v5.0 2b24-2b4cv5.1 2b4d-2b4fv7.0 2b50-2b54v5.1 ",
  "2b55-2b59v5.2 2b5a-2b73v7.0 2b76-2b95v7.0 2b97v13.0 2b98-2bb9v7.0 2bba-2bbcv11.0 ",
  "2bbd-2bc8v7.0 2bc9v12.0 2bca-2bd1v7.0 2bd2v10.0 2bd3-2bebv11.0 2bec-2befv8.0 2bf0-2bfev11.0 ",
  "2bffv12.0 2c00-2c2ev4.1 2c2fv14.0 2c30-2c5ev4.1 2c5fv14.0 2c60-2c6cv5.0 2c6d-2c6fv5.1 ",
  "2c70v5.2 2c71-2c73v5.1 2c74-2c77v5.0 2c78-2c7dv5.1 2c7e-2c7fv5.2 2c80-2ceav4.1 2ceb-2cf1v5.2 ",
  "2cf2-2cf3v6.1 2cf9-2d25v4.1 2d27v6.1 2d2dv6.1 2d30-2d65v4.1 2d66-2d67v6.1 2d6fv4.1 2d70v6.0 ",
  "2d7fv6.0 2d80-2d96v4.1 2da0-2da6v4.1 2da8-2daev4.1 2db0-2db6v4.1 2db8-2dbev4.1 2dc0-2dc6v4.1 ",
  "2dc8-2dcev4.1 2dd0-2dd6v4.1 2dd8-2ddev4.1 2de0-2dffv5.1 2e00-2e17v4.1 2e18-2e1bv5.1 ",
  "2e1c-2e1dv4.1 2e1e-2e30v5.1 2e31v5.2 2e32-2e3bv6.1 2e3c-2e42v7.0 2e43-2e44v9.0 ",
  "2e45-2e49v10.0 2e4a-2e4ev11.0 2e4fv12.0 2e50-2e52v13.0 2e53-2e5dv14.0 2e80-2e99v3.0 ",
  "2e9b-2ef3v3.0 2f00-2fd5v3.0 2ff0-2ffbv3.0 2ffc-2fffv15.1 3000-3037v1.1 3038-303av3.0 ",
  "303b-303dv3.2 303ev3.0 303fv1.1 3041-3094v1.1 3095-3096v3.2 3099-309ev1.1 309f-30a0v3.2 ",
  "30a1-30fev1.1 30ffv3.2 3105-312cv1.1 312dv5.1 312ev10.0 312fv11.0 3131-318ev1.1 ",
  "3190-319fv1.1 31a0-31b7v3.0 31b8-31bav6.0 31bb-31bfv13.0 31c0-31cfv4.1 31d0-31e3v5.1 ",
  "31e4-31e5v16.0 31efv15.1 31f0-31ffv3.2 3200-321cv1.1 321d-321ev4.0 3220-3243v1.1 ",
  "3244-324fv5.2 3250v4.0 3251-325fv3.2 3260-327bv1.1 327c-327dv4.0 327ev4.1 327f-32b0v1.1 ",
  "32b1-32bfv3.2 32c0-32cbv1.1 32cc-32cfv4.0 32d0-32fev1.1 32ffv12.1 3300-3376v1.1 ",
  "3377-337av4.0 337b-33ddv1.1 33de-33dfv4.0 33e0-33fev1.1 33ffv4.0 3400-4db5v3.0 ",
  "4db6-4dbfv13.0 4dc0-4dffv4.0 4e00-9fa5v1.1 9fa6-9fbbv4.1 9fbc-9fc3v5.1 9fc4-9fcbv5.2 ",
  "9fccv6.1 9fcd-9fd5v8.0 9fd6-9feav10.0 9feb-9fefv11.0 9ff0-9ffcv13.0 9ffd-9fffv14.0 ",
  "a000-a48cv3.0 a490-a4a1v3.0 a4a2-a4a3v3.2 a4a4-a4b3v3.0 a4b4v3.2 a4b5-a4c0v3.0 a4c1v3.2 ",
  "a4c2-a4c4v3.0 a4c5v3.2 a4c6v3.0 a4d0-a4ffv5.2 a500-a62bv5.1 a640-a65fv5.1 a660-a661v6.0 ",
  "a662-a673v5.1 a674-a67bv6.1 a67c-a697v5.1 a698-a69dv7.0 a69ev8.0 a69fv6.1 a6a0-a6f7v5.2 ",
  "a700-a716v4.1 a717-a71av5.0 a71b-a71fv5.1 a720-a721v5.0 a722-a78cv5.1 a78d-a78ev6.0 a78fv8.0 ",
  "a790-a791v6.0 a792-a793v6.1 a794-a79fv7.0 a7a0-a7a9v6.0 a7aav6.1 a7ab-a7adv7.0 a7aev9.0 ",
  "a7afv11.0 a7b0-a7b1v7.0 a7b2-a7b7v8.0 a7b8-a7b9v11.0 a7ba-a7bfv12.0 a7c0-a7c1v14.0 ",
  "a7c2-a7c6v12.0 a7c7-a7cav13.0 a7cb-a7cdv16.0 a7d0-a7d1v14.0 a7d3v14.0 a7d5-a7d9v14.0 ",
  "a7da-a7dcv16.0 a7f2-a7f4v14.0 a7f5-a7f6v13.0 a7f7v7.0 a7f8-a7f9v6.1 a7fav6.0 a7fb-a7ffv5.1 ",
  "a800-a82bv4.1 a82cv13.0 a830-a839v5.2 a840-a877v5.0 a880-a8c4v5.1 a8c5v9.0 a8ce-a8d9v5.1 ",
  "a8e0-a8fbv5.2 a8fc-a8fdv8.0 a8fe-a8ffv11.0 a900-a953v5.1 a95fv5.1 a960-a97cv5.2 ",
  "a980-a9cdv5.2 a9cf-a9d9v5.2 a9de-a9dfv5.2 a9e0-a9fev7.0 aa00-aa36v5.1 aa40-aa4dv5.1 ",
  "aa50-aa59v5.1 aa5c-aa5fv5.1 aa60-aa7bv5.2 aa7c-aa7fv7.0 aa80-aac2v5.2 aadb-aadfv5.2 ",
  "aae0-aaf6v6.1 ab01-ab06v6.0 ab09-ab0ev6.0 ab11-ab16v6.0 ab20-ab26v6.0 ab28-ab2ev6.0 ",
  "ab30-ab5fv7.0 ab60-ab63v8.0 ab64-ab65v7.0 ab66-ab67v12.0 ab68-ab6bv13.0 ab70-abbfv8.0 ",
  "abc0-abedv5.2 abf0-abf9v5.2 ac00-d7a3v2.0 d7b0-d7c6v5.2 d7cb-d7fbv5.2 d800-dfffv2.0 ",
  "e000-fa2dv1.1 fa2e-fa2fv6.1 fa30-fa6av3.2 fa6b-fa6dv5.2 fa70-fad9v4.1 fb00-fb06v1.1 ",
  "fb13-fb17v1.1 fb1dv3.0 fb1e-fb36v1.1 fb38-fb3cv1.1 fb3ev1.1 fb40-fb41v1.1 fb43-fb44v1.1 ",
  "fb46-fbb1v1.1 fbb2-fbc1v6.0 fbc2v14.0 fbd3-fd3fv1.1 fd40-fd4fv14.0 fd50-fd8fv1.1 ",
  "fd92-fdc7v1.1 fdcfv14.0 fdd0-fdefv3.1 fdf0-fdfbv1.1 fdfcv3.2 fdfdv4.0 fdfe-fdffv14.0 ",
  "fe00-fe0fv3.2 fe10-fe19v4.1 fe20-fe23v1.1 fe24-fe26v5.1 fe27-fe2dv7.0 fe2e-fe2fv8.0 ",
  "fe30-fe44v1.1 fe45-fe46v3.2 fe47-fe48v4.0 fe49-fe52v1.1 fe54-fe66v1.1 fe68-fe6bv1.1 ",
  "fe70-fe72v1.1 fe73v3.2 fe74v1.1 fe76-fefcv1.1 feffv1.1 ff01-ff5ev1.1 ff5f-ff60v3.2 ",
  "ff61-ffbev1.1 ffc2-ffc7v1.1 ffca-ffcfv1.1 ffd2-ffd7v1.1 ffda-ffdcv1.1 ffe0-ffe6v1.1 ",
  "ffe8-ffeev1.1 fff9-fffbv3.0 fffcv2.1 fffd-ffffv1.1 10000-1000bv4.0 1000d-10026v4.0 ",
  "10028-1003av4.0 1003c-1003dv4.0 1003f-1004dv4.0 10050-1005dv4.0 10080-100fav4.0 ",
  "10100-10102v4.0 10107-10133v4.0 10137-1013fv4.0 10140-1018av4.1 1018b-1018cv7.0 ",
  "1018d-1018ev9.0 10190-1019bv5.1 1019cv13.0 101a0v7.0 101d0-101fdv5.1 10280-1029cv5.1 ",
  "102a0-102d0v5.1 102e0-102fbv7.0 10300-1031ev3.1 1031fv7.0 10320-10323v3.1 1032d-1032fv10.0 ",
  "10330-1034av3.1 10350-1037av7.0 10380-1039dv4.0 1039fv4.0 103a0-103c3v4.1 103c8-103d5v4.1 ",
  "10400-10425v3.1 10426-10427v4.0 10428-1044dv3.1 1044e-1049dv4.0 104a0-104a9v4.0 ",
  "104b0-104d3v9.0 104d8-104fbv9.0 10500-10527v7.0 10530-10563v7.0 1056fv7.0 10570-1057av14.0 ",
  "1057c-1058av14.0 1058c-10592v14.0 10594-10595v14.0 10597-105a1v14.0 105a3-105b1v14.0 ",
  "105b3-105b9v14.0 105bb-105bcv14.0 105c0-105f3v16.0 10600-10736v7.0 10740-10755v7.0 ",
  "10760-10767v7.0 10780-10785v14.0 10787-107b0v14.0 107b2-107bav14.0 10800-10805v4.0 10808v4.0 ",
  "1080a-10835v4.0 10837-10838v4.0 1083cv4.0 1083fv4.0 10840-10855v5.2 10857-1085fv5.2 ",
  "10860-1089ev7.0 108a7-108afv7.0 108e0-108f2v8.0 108f4-108f5v8.0 108fb-108ffv8.0 ",
  "10900-10919v5.0 1091a-1091bv5.2 1091fv5.0 10920-10939v5.1 1093fv5.1 10980-109b7v6.1 ",
  "109bc-109bdv8.0 109be-109bfv6.1 109c0-109cfv8.0 109d2-109ffv8.0 10a00-10a03v4.1 ",
  "10a05-10a06v4.1 10a0c-10a13v4.1 10a15-10a17v4.1 10a19-10a33v4.1 10a34-10a35v11.0 ",
  "10a38-10a3av4.1 10a3f-10a47v4.1 10a48v11.0 10a50-10a58v4.1 10a60-10a7fv5.2 10a80-10a9fv7.0 ",
  "10ac0-10ae6v7.0 10aeb-10af6v7.0 10b00-10b35v5.2 10b39-10b55v5.2 10b58-10b72v5.2 ",
  "10b78-10b7fv5.2 10b80-10b91v7.0 10b99-10b9cv7.0 10ba9-10bafv7.0 10c00-10c48v5.2 ",
  "10c80-10cb2v8.0 10cc0-10cf2v8.0 10cfa-10cffv8.0 10d00-10d27v11.0 10d30-10d39v11.0 ",
  "10d40-10d65v16.0 10d69-10d85v16.0 10d8e-10d8fv16.0 10e60-10e7ev5.2 10e80-10ea9v13.0 ",
  "10eab-10eadv13.0 10eb0-10eb1v13.0 10ec2-10ec4v16.0 10efcv16.0 10efd-10effv15.0 ",
  "10f00-10f27v11.0 10f30-10f59v11.0 10f70-10f89v14.0 10fb0-10fcbv13.0 10fe0-10ff6v12.0 ",
  "11000-1104dv6.0 11052-1106fv6.0 11070-11075v14.0 1107fv7.0 11080-110c1v5.2 110c2v14.0 ",
  "110cdv11.0 110d0-110e8v6.1 110f0-110f9v6.1 11100-11134v6.1 11136-11143v6.1 11144-11146v11.0 ",
  "11147v13.0 11150-11176v7.0 11180-111c8v6.1 111c9-111ccv8.0 111cdv7.0 111ce-111cfv13.0 ",
  "111d0-111d9v6.1 111dav7.0 111db-111dfv8.0 111e1-111f4v7.0 11200-11211v7.0 11213-1123dv7.0 ",
  "1123ev9.0 1123f-11241v15.0 11280-11286v8.0 11288v8.0 1128a-1128dv8.0 1128f-1129dv8.0 ",
  "1129f-112a9v8.0 112b0-112eav7.0 112f0-112f9v7.0 11300v8.0 11301-11303v7.0 11305-1130cv7.0 ",
  "1130f-11310v7.0 11313-11328v7.0 1132a-11330v7.0 11332-11333v7.0 11335-11339v7.0 1133bv11.0 ",
  "1133c-11344v7.0 11347-11348v7.0 1134b-1134dv7.0 11350v8.0 11357v7.0 1135d-11363v7.0 ",
  "11366-1136cv7.0 11370-11374v7.0 11380-11389v16.0 1138bv16.0 1138ev16.0 11390-113b5v16.0 ",
  "113b7-113c0v16.0 113c2v16.0 113c5v16.0 113c7-113cav16.0 113cc-113d5v16.0 113d7-113d8v16.0 ",
  "113e1-113e2v16.0 11400-11459v9.0 1145av13.0 1145bv9.0 1145dv9.0 1145ev11.0 1145fv12.0 ",
  "11460-11461v13.0 11480-114c7v7.0 114d0-114d9v7.0 11580-115b5v7.0 115b8-115c9v7.0 ",
  "115ca-115ddv8.0 11600-11644v7.0 11650-11659v7.0 11660-1166cv9.0 11680-116b7v6.1 116b8v12.0 ",
  "116b9v14.0 116c0-116c9v6.1 116d0-116e3v16.0 11700-11719v8.0 1171av11.0 1171d-1172bv8.0 ",
  "11730-1173fv8.0 11740-11746v14.0 11800-1183bv11.0 118a0-118f2v7.0 118ffv7.0 11900-11906v13.0 ",
  "11909v13.0 1190c-11913v13.0 11915-11916v13.0 11918-11935v13.0 11937-11938v13.0 ",
  "1193b-11946v13.0 11950-11959v13.0 119a0-119a7v12.0 119aa-119d7v12.0 119da-119e4v12.0 ",
  "11a00-11a47v10.0 11a50-11a83v10.0 11a84-11a85v12.0 11a86-11a9cv10.0 11a9dv11.0 ",
  "11a9e-11aa2v10.0 11ab0-11abfv14.0 11ac0-11af8v7.0 11b00-11b09v15.0 11bc0-11be1v16.0 ",
  "11bf0-11bf9v16.0 11c00-11c08v9.0 11c0a-11c36v9.0 11c38-11c45v9.0 11c50-11c6cv9.0 ",
  "11c70-11c8fv9.0 11c92-11ca7v9.0 11ca9-11cb6v9.0 11d00-11d06v10.0 11d08-11d09v10.0 ",
  "11d0b-11d36v10.0 11d3av10.0 11d3c-11d3dv10.0 11d3f-11d47v10.0 11d50-11d59v10.0 ",
  "11d60-11d65v11.0 11d67-11d68v11.0 11d6a-11d8ev11.0 11d90-11d91v11.0 11d93-11d98v11.0 ",
  "11da0-11da9v11.0 11ee0-11ef8v11.0 11f00-11f10v15.0 11f12-11f3av15.0 11f3e-11f59v15.0 ",
  "11f5av16.0 11fb0v13.0 11fc0-11ff1v12.0 11fffv12.0 12000-1236ev5.0 1236f-12398v7.0 12399v8.0 ",
  "12400-12462v5.0 12463-1246ev7.0 12470-12473v5.0 12474v7.0 12480-12543v8.0 12f90-12ff2v14.0 ",
  "13000-1342ev5.2 1342fv15.0 13430-13438v12.0 13439-13455v15.0 13460-143fav16.0 ",
  "14400-14646v8.0 16100-16139v16.0 16800-16a38v6.0 16a40-16a5ev7.0 16a60-16a69v7.0 ",
  "16a6e-16a6fv7.0 16a70-16abev14.0 16ac0-16ac9v14.0 16ad0-16aedv7.0 16af0-16af5v7.0 ",
  "16b00-16b45v7.0 16b50-16b59v7.0 16b5b-16b61v7.0 16b63-16b77v7.0 16b7d-16b8fv7.0 ",
  "16d40-16d79v16.0 16e40-16e9av11.0 16f00-16f44v6.1 16f45-16f4av12.0 16f4fv12.0 ",
  "16f50-16f7ev6.1 16f7f-16f87v12.0 16f8f-16f9fv6.1 16fe0v9.0 16fe1v10.0 16fe2-16fe3v12.0 ",
  "16fe4v13.0 16ff0-16ff1v13.0 17000-187ecv9.0 187ed-187f1v11.0 187f2-187f7v12.0 ",
  "18800-18af2v9.0 18af3-18cd5v13.0 18cffv16.0 18d00-18d08v13.0 1aff0-1aff3v14.0 ",
  "1aff5-1affbv14.0 1affd-1affev14.0 1b000-1b001v6.0 1b002-1b11ev10.0 1b11f-1b122v14.0 ",
  "1b132v15.0 1b150-1b152v12.0 1b155v15.0 1b164-1b167v12.0 1b170-1b2fbv10.0 1bc00-1bc6av7.0 ",
  "1bc70-1bc7cv7.0 1bc80-1bc88v7.0 1bc90-1bc99v7.0 1bc9c-1bca3v7.0 1cc00-1ccf9v16.0 ",
  "1cd00-1ceb3v16.0 1cf00-1cf2dv14.0 1cf30-1cf46v14.0 1cf50-1cfc3v14.0 1d000-1d0f5v3.1 ",
  "1d100-1d126v3.1 1d129v5.1 1d12a-1d1ddv3.1 1d1de-1d1e8v8.0 1d1e9-1d1eav14.0 1d200-1d245v4.1 ",
  "1d2c0-1d2d3v15.0 1d2e0-1d2f3v11.0 1d300-1d356v4.0 1d360-1d371v5.0 1d372-1d378v11.0 ",
  "1d400-1d454v3.1 1d456-1d49cv3.1 1d49e-1d49fv3.1 1d4a2v3.1 1d4a5-1d4a6v3.1 1d4a9-1d4acv3.1 ",
  "1d4ae-1d4b9v3.1 1d4bbv3.1 1d4bd-1d4c0v3.1 1d4c1v4.0 1d4c2-1d4c3v3.1 1d4c5-1d505v3.1 ",
  "1d507-1d50av3.1 1d50d-1d514v3.1 1d516-1d51cv3.1 1d51e-1d539v3.1 1d53b-1d53ev3.1 ",
  "1d540-1d544v3.1 1d546v3.1 1d54a-1d550v3.1 1d552-1d6a3v3.1 1d6a4-1d6a5v4.1 1d6a8-1d7c9v3.1 ",
  "1d7ca-1d7cbv5.0 1d7ce-1d7ffv3.1 1d800-1da8bv8.0 1da9b-1da9fv8.0 1daa1-1daafv8.0 ",
  "1df00-1df1ev14.0 1df25-1df2av15.0 1e000-1e006v9.0 1e008-1e018v9.0 1e01b-1e021v9.0 ",
  "1e023-1e024v9.0 1e026-1e02av9.0 1e030-1e06dv15.0 1e08fv15.0 1e100-1e12cv12.0 ",
  "1e130-1e13dv12.0 1e140-1e149v12.0 1e14e-1e14fv12.0 1e290-1e2aev14.0 1e2c0-1e2f9v12.0 ",
  "1e2ffv12.0 1e4d0-1e4f9v15.0 1e5d0-1e5fav16.0 1e5ffv16.0 1e7e0-1e7e6v14.0 1e7e8-1e7ebv14.0 ",
  "1e7ed-1e7eev14.0 1e7f0-1e7fev14.0 1e800-1e8c4v7.0 1e8c7-1e8d6v7.0 1e900-1e94av9.0 1e94bv12.0 ",
  "1e950-1e959v9.0 1e95e-1e95fv9.0 1ec71-1ecb4v11.0 1ed01-1ed3dv12.0 1ee00-1ee03v6.1 ",
  "1ee05-1ee1fv6.1 1ee21-1ee22v6.1 1ee24v6.1 1ee27v6.1 1ee29-1ee32v6.1 1ee34-1ee37v6.1 ",
  "1ee39v6.1 1ee3bv6.1 1ee42v6.1 1ee47v6.1 1ee49v6.1 1ee4bv6.1 1ee4d-1ee4fv6.1 1ee51-1ee52v6.1 ",
  "1ee54v6.1 1ee57v6.1 1ee59v6.1 1ee5bv6.1 1ee5dv6.1 1ee5fv6.1 1ee61-1ee62v6.1 1ee64v6.1 ",
  "1ee67-1ee6av6.1 1ee6c-1ee72v6.1 1ee74-1ee77v6.1 1ee79-1ee7cv6.1 1ee7ev6.1 1ee80-1ee89v6.1 ",
  "1ee8b-1ee9bv6.1 1eea1-1eea3v6.1 1eea5-1eea9v6.1 1eeab-1eebbv6.1 1eef0-1eef1v6.1 ",
  "1f000-1f02bv5.1 1f030-1f093v5.1 1f0a0-1f0aev6.0 1f0b1-1f0bev6.0 1f0bfv7.0 1f0c1-1f0cfv6.0 ",
  "1f0d1-1f0dfv6.0 1f0e0-1f0f5v7.0 1f100-1f10av5.2 1f10b-1f10cv7.0 1f10d-1f10fv13.0 ",
  "1f110-1f12ev5.2 1f12fv11.0 1f130v6.0 1f131v5.2 1f132-1f13cv6.0 1f13dv5.2 1f13ev6.0 1f13fv5.2 ",
  "1f140-1f141v6.0 1f142v5.2 1f143-1f145v6.0 1f146v5.2 1f147-1f149v6.0 1f14a-1f14ev5.2 ",
  "1f14f-1f156v6.0 1f157v5.2 1f158-1f15ev6.0 1f15fv5.2 1f160-1f169v6.0 1f16a-1f16bv6.1 ",
  "1f16cv12.0 1f16d-1f16fv13.0 1f170-1f178v6.0 1f179v5.2 1f17av6.0 1f17b-1f17cv5.2 ",
  "1f17d-1f17ev6.0 1f17fv5.2 1f180-1f189v6.0 1f18a-1f18dv5.2 1f18e-1f18fv6.0 1f190v5.2 ",
  "1f191-1f19av6.0 1f19b-1f1acv9.0 1f1adv13.0 1f1e6-1f1ffv6.0 1f200v5.2 1f201-1f202v6.0 ",
  "1f210-1f231v5.2 1f232-1f23av6.0 1f23bv9.0 1f240-1f248v5.2 1f250-1f251v6.0 1f260-1f265v10.0 ",
  "1f300-1f320v6.0 1f321-1f32cv7.0 1f32d-1f32fv8.0 1f330-1f335v6.0 1f336v7.0 1f337-1f37cv6.0 ",
  "1f37dv7.0 1f37e-1f37fv8.0 1f380-1f393v6.0 1f394-1f39fv7.0 1f3a0-1f3c4v6.0 1f3c5v7.0 ",
  "1f3c6-1f3cav6.0 1f3cb-1f3cev7.0 1f3cf-1f3d3v8.0 1f3d4-1f3dfv7.0 1f3e0-1f3f0v6.0 ",
  "1f3f1-1f3f7v7.0 1f3f8-1f3ffv8.0 1f400-1f43ev6.0 1f43fv7.0 1f440v6.0 1f441v7.0 ",
  "1f442-1f4f7v6.0 1f4f8v7.0 1f4f9-1f4fcv6.0 1f4fd-1f4fev7.0 1f4ffv8.0 1f500-1f53dv6.0 ",
  "1f53e-1f53fv7.0 1f540-1f543v6.1 1f544-1f54av7.0 1f54b-1f54fv8.0 1f550-1f567v6.0 ",
  "1f568-1f579v7.0 1f57av9.0 1f57b-1f5a3v7.0 1f5a4v9.0 1f5a5-1f5fav7.0 1f5fb-1f5ffv6.0 ",
  "1f600v6.1 1f601-1f610v6.0 1f611v6.1 1f612-1f614v6.0 1f615v6.1 1f616v6.0 1f617v6.1 1f618v6.0 ",
  "1f619v6.1 1f61av6.0 1f61bv6.1 1f61c-1f61ev6.0 1f61fv6.1 1f620-1f625v6.0 1f626-1f627v6.1 ",
  "1f628-1f62bv6.0 1f62cv6.1 1f62dv6.0 1f62e-1f62fv6.1 1f630-1f633v6.0 1f634v6.1 ",
  "1f635-1f640v6.0 1f641-1f642v7.0 1f643-1f644v8.0 1f645-1f64fv6.0 1f650-1f67fv7.0 ",
  "1f680-1f6c5v6.0 1f6c6-1f6cfv7.0 1f6d0v8.0 1f6d1-1f6d2v9.0 1f6d3-1f6d4v10.0 1f6d5v12.0 ",
  "1f6d6-1f6d7v13.0 1f6dcv15.0 1f6dd-1f6dfv14.0 1f6e0-1f6ecv7.0 1f6f0-1f6f3v7.0 1f6f4-1f6f6v9.0 ",
  "1f6f7-1f6f8v10.0 1f6f9v11.0 1f6fav12.0 1f6fb-1f6fcv13.0 1f700-1f773v6.0 1f774-1f776v15.0 ",
  "1f77b-1f77fv15.0 1f780-1f7d4v7.0 1f7d5-1f7d8v11.0 1f7d9v15.0 1f7e0-1f7ebv12.0 1f7f0v14.0 ",
  "1f800-1f80bv7.0 1f810-1f847v7.0 1f850-1f859v7.0 1f860-1f887v7.0 1f890-1f8adv7.0 ",
  "1f8b0-1f8b1v13.0 1f8b2-1f8bbv16.0 1f8c0-1f8c1v16.0 1f900-1f90bv10.0 1f90cv13.0 ",
  "1f90d-1f90fv12.0 1f910-1f918v8.0 1f919-1f91ev9.0 1f91fv10.0 1f920-1f927v9.0 1f928-1f92fv10.0 ",
  "1f930v9.0 1f931-1f932v10.0 1f933-1f93ev9.0 1f93fv12.0 1f940-1f94bv9.0 1f94cv10.0 ",
  "1f94d-1f94fv11.0 1f950-1f95ev9.0 1f95f-1f96bv10.0 1f96c-1f970v11.0 1f971v12.0 1f972v13.0 ",
  "1f973-1f976v11.0 1f977-1f978v13.0 1f979v14.0 1f97av11.0 1f97bv12.0 1f97c-1f97fv11.0 ",
  "1f980-1f984v8.0 1f985-1f991v9.0 1f992-1f997v10.0 1f998-1f9a2v11.0 1f9a3-1f9a4v13.0 ",
  "1f9a5-1f9aav12.0 1f9ab-1f9adv13.0 1f9ae-1f9afv12.0 1f9b0-1f9b9v11.0 1f9ba-1f9bfv12.0 ",
  "1f9c0v8.0 1f9c1-1f9c2v11.0 1f9c3-1f9cav12.0 1f9cbv13.0 1f9ccv14.0 1f9cd-1f9cfv12.0 ",
  "1f9d0-1f9e6v10.0 1f9e7-1f9ffv11.0 1fa00-1fa53v12.0 1fa60-1fa6dv11.0 1fa70-1fa73v12.0 ",
  "1fa74v13.0 1fa75-1fa77v15.0 1fa78-1fa7av12.0 1fa7b-1fa7cv14.0 1fa80-1fa82v12.0 ",
  "1fa83-1fa86v13.0 1fa87-1fa88v15.0 1fa89v16.0 1fa8fv16.0 1fa90-1fa95v12.0 1fa96-1faa8v13.0 ",
  "1faa9-1faacv14.0 1faad-1faafv15.0 1fab0-1fab6v13.0 1fab7-1fabav14.0 1fabb-1fabdv15.0 ",
  "1fabev16.0 1fabfv15.0 1fac0-1fac2v13.0 1fac3-1fac5v14.0 1fac6v16.0 1face-1facfv15.0 ",
  "1fad0-1fad6v13.0 1fad7-1fad9v14.0 1fada-1fadbv15.0 1fadcv16.0 1fadfv16.0 1fae0-1fae7v14.0 ",
  "1fae8v15.0 1fae9v16.0 1faf0-1faf6v14.0 1faf7-1faf8v15.0 1fb00-1fb92v13.0 1fb94-1fbcav13.0 ",
  "1fbcb-1fbefv16.0 1fbf0-1fbf9v13.0 1fffe-1ffffv2.0 20000-2a6d6v3.1 2a6d7-2a6ddv13.0 ",
  "2a6de-2a6dfv14.0 2a700-2b734v5.2 2b735-2b738v14.0 2b739v15.0 2b740-2b81dv6.0 2b820-2cea1v8.0 ",
  "2ceb0-2ebe0v10.0 2ebf0-2ee5dv15.1 2f800-2fa1dv3.1 2fffe-2ffffv2.0 30000-3134av13.0 ",
  "31350-323afv15.0 3fffe-3ffffv2.0 4fffe-4ffffv2.0 5fffe-5ffffv2.0 6fffe-6ffffv2.0 ",
  "7fffe-7ffffv2.0 8fffe-8ffffv2.0 9fffe-9ffffv2.0 afffe-affffv2.0 bfffe-bffffv2.0 ",
  "cfffe-cffffv2.0 dfffe-dffffv2.0 e0001v3.1 e0020-e007fv3.1 e0100-e01efv4.0 efffe-10ffffv2.0"])

/-- Whether a character had been added by an edition. -/
def has (a : Age) (c : Char) : Bool :=
  (table.find? c.toNat).any fun b => b.le a

/-- The editions that added characters. -/
def all : List Age := [
  ⟨1, 1⟩, ⟨2, 0⟩, ⟨2, 1⟩, ⟨3, 0⟩, ⟨3, 1⟩, ⟨3, 2⟩, ⟨4, 0⟩, ⟨4, 1⟩, ⟨5, 0⟩, ⟨5, 1⟩, ⟨5, 2⟩, ⟨6, 0⟩,
  ⟨6, 1⟩, ⟨6, 2⟩, ⟨6, 3⟩, ⟨7, 0⟩, ⟨8, 0⟩, ⟨9, 0⟩, ⟨10, 0⟩, ⟨11, 0⟩, ⟨12, 0⟩, ⟨12, 1⟩, ⟨13, 0⟩,
  ⟨14, 0⟩, ⟨15, 0⟩, ⟨15, 1⟩, ⟨16, 0⟩]

/-- The edition of a name such as `6.0` or `v60`. -/
def named? (name : String) : Option Age :=
  all.find? fun a =>
    name == toString a.edition ++ "." ++ toString a.revision ||
      name == "v" ++ toString a.edition ++ toString a.revision

end Age

end CodeGraph.Text
